import MiniRudis.Db.Shedding
import MiniRudis.Server.Isolation

/-!
# Sweeps

The sweeps of the background task do not show in the replies, as long as no command meets an
expired key without a look at its deadline.
-/

namespace MiniRudis

open Lib

def Server.Sheds (now : Instant) (s t : Server) : Prop := s.db.Sheds now t.db ∧ s.cache = t.cache

namespace ServerCall

/-- No key that the call reaches without a look at its deadline has expired. -/
def Fresh : (β : Type) → ServerCall β → Server → Prop
  | _, .db env op, s => op.Fresh env.now s.db
  | _, _, _ => True

end ServerCall

namespace Event

def now : Event → Instant
  | request env _ _ | sweep env => env.now

def isRequest : Event → Bool
  | request .. => true
  | sweep _ => false

end Event

namespace Host

variable (host : Host)

end Host

end MiniRudis
