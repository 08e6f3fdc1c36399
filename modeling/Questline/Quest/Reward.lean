import Questline.Dict

/-!
# Rewards

What a completed quest pays out. The host applies it.
-/

namespace Questline

structure ItemReward where
  item : String
  count : UInt32
  deriving DecidableEq, Repr

structure Rewards where
  experience : UInt64
  questFlags : List String
  flags : List String
  items : List ItemReward
  /-- The change of each currency. -/
  currency : Dict Int64
  message : Option String
  deriving DecidableEq, Repr

namespace Rewards

def none : Rewards := ⟨0, [], [], [], ∅, .none⟩

end Rewards

end Questline
