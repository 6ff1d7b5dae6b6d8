import Bld.Text
import Bld.Pipeline
import Bld.Runner.Builder
import Bld.Runner.Cancel
import Bld.Runner.Context
import Bld.Runner.Failure
import Bld.Runner.Flatten
import Bld.Runner.Fuel
import Bld.Runner.Monad
import Bld.Runner.Order
import Bld.Runner.Platform
import Bld.Runner.Run
import Bld.Runner.Spec
import Bld.Runner.Termination
import Bld.Runner.Trace
import Bld.Server.Exec
import Bld.Server.Socket
import Bld.Server.Spawn
import Bld.Supervisor.Server
