import Mathlib.Data.List.Infix

/-!
# `str::replace`

The runner interpolates text with Rust's `str::replace` (`Runner::apply_run_properties`,
`Runner::apply_environment`, `Runner::apply_variables`). `s.replace(from, to)` copies `s` and
writes `to` in place of every match of `from`: the matches are found from the left, do not
overlap, and the copy is not scanned again. An empty `from` matches at every character
boundary, so `to` is written before every character and once more at the end.

* `replace_of_not_occurs`: a pattern that does not occur leaves the text as it is.
-/

namespace Bld

namespace Text

/-- The scan of `str::replace` for a nonempty pattern `p`: `skip` characters of the last match
are still to be dropped. -/
def replaceFrom (p v : List Char) : Nat → List Char → List Char
  | _, [] => []
  | skip + 1, _ :: s => replaceFrom p v skip s
  | 0, c :: s =>
    if p.isPrefixOf (c :: s) then v ++ replaceFrom p v (p.length - 1) s
    else c :: replaceFrom p v 0 s

/-- `str::replace` on the characters of the text. -/
def replaceChars (p v : List Char) (s : List Char) : List Char :=
  match p with
  | [] => s.foldr (fun c acc => v ++ c :: acc) v
  | _ :: _ => replaceFrom p v 0 s

/-- `s.replace(p, v)`. -/
def replace (s p v : String) : String := ⟨replaceChars p.data v.data s.data⟩

/-- `p` occurs in `s`. -/
def Occurs (p s : String) : Prop := p.data <:+: s.data

instance (p s : String) : Decidable (Occurs p s) :=
  inferInstanceAs (Decidable (p.data <:+: s.data))

theorem empty_occurs (s : String) : Occurs "" s := List.nil_infix

theorem not_occurs_append {p s : String} (t : String) (h : ¬ Occurs p s) :
    ¬ Occurs (p ++ t) s :=
  fun ht => h ((List.prefix_append p.data t.data).isInfix.trans ht)

theorem replaceFrom_of_absent {p v : List Char} (hp : p ≠ []) :
    ∀ {s : List Char}, ¬ p <:+: s → replaceFrom p v 0 s = s
  | [], _ => rfl
  | c :: s, h => by
    have hpre : p.isPrefixOf (c :: s) = false := by
      rw [Bool.eq_false_iff, ne_eq, List.isPrefixOf_iff_prefix]
      exact fun hc => h hc.isInfix
    rw [replaceFrom, hpre, if_neg Bool.false_ne_true,
      replaceFrom_of_absent hp (fun hs => h (List.infix_cons hs))]

/-- A pattern that does not occur in the text leaves it unchanged. -/
theorem replace_of_not_occurs {s p : String} (v : String) (h : ¬ Occurs p s) :
    replace s p v = s := by
  obtain ⟨p⟩ := p
  cases p with
  | nil => exact absurd (empty_occurs s) h
  | cons c p => exact String.ext (replaceFrom_of_absent (List.cons_ne_nil c p) h)

end Text

end Bld
