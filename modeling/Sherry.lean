import Sherry.Verif.Table
import Sherry.Verif.Places
import Sherry.Verif.Release
import Sherry.Verif.Identity
import Sherry.Verif.Waiters
import Sherry.Verif.Writes
import Sherry.Verif.Exit
import Sherry.Verif.Refinement
import Sherry.Verif.Plays
import Sherry.Verif.ListOperations
import Sherry.Verif.Buffers
import Sherry.Verif.Slices
import Sherry.Verif.Safety
import Sherry.Verif.Histories
import Sherry.Verif.StringGrowth
import Sherry.Verif.StringRuns
