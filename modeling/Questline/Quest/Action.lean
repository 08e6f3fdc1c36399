/-!
# Actions

Side effects that a quest asks the host to apply when a step starts or is completed,
or when a dialogue option is picked. The library only hands them on.
-/

namespace Questline

inductive Action where
  | message (text : String)
  | giveItem (item : String) (count : UInt32)
  | removeItem (item : String) (count : UInt32)
  | giveExperience (amount : UInt64)
  | giveCurrency (currency : String) (amount : Int64)
  | setQuestFlag (flag : String)
  | setFlag (flag : String)
  | teleport (room : String)
  deriving DecidableEq, Repr

end Questline
