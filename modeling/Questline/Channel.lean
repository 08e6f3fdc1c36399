import Questline.Notification

/-!
# The notification channel

Notifications wait in a channel of limited room until a listener takes them. When more
are published than there is room for, the oldest are lost, and the listener is told how
many.
-/

namespace Questline

/-- The room of a channel that was asked to hold `capacity` notifications: at least one,
rounded up to a power of two. -/
def channelRoom (capacity : Nat) : Nat := (max capacity 1).nextPowerOfTwo

/-- What a listener finds who comes after `news` was published to an empty channel: how
many notifications are lost, and the others. -/
def delivery (capacity : Nat) (news : List Notification) : Nat × List Notification :=
  let lost := news.length - channelRoom capacity
  (lost, news.drop lost)

end Questline
