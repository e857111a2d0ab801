import Mathlib.Tactic.Common

/-!
# The subscriptions of a broker's connection

What a link asks of a broker that routes by subscription: to be subscribed to some channels,
or not to be any more. The broker handles the requests of one connection in the order they
were sent, and forgets them with the connection.
-/

namespace Ulo.Rpc

/-- `Phase` -/
inductive LinkPhase
  | serving
  | draining
deriving DecidableEq

/-- A request about the subscriptions of a connection. -/
inductive Subscription
  | subscribe (channels : List String)
  | unsubscribe (channels : List String)
deriving DecidableEq

namespace Subscription

/-- What a connection is subscribed to after a request. -/
def apply (subs : List String) : Subscription → List String
  | subscribe channels => subs ++ channels
  | unsubscribe channels => subs.filter (· ∉ channels)

/-- The channels that a request subscribes. -/
def channels : Subscription → List String
  | subscribe channels => channels
  | unsubscribe _ => []

variable {subs : List String} {ch : String}

theorem mem_apply {r : Subscription} (h : ch ∈ r.apply subs) : ch ∈ subs ∨ ch ∈ r.channels := by
  cases r with
  | subscribe => exact List.mem_append.mp h
  | unsubscribe => exact .inl (List.mem_filter.mp h).1

/-- Whether a request gives channels up. -/
def drops : Subscription → Bool
  | subscribe _ => false
  | unsubscribe _ => true

/-- **What requests that only subscribe lead to.** -/
theorem mem_foldl_apply {rs : List Subscription} (hrs : ∀ r ∈ rs, r.drops = false) :
    ch ∈ rs.foldl apply subs ↔ ch ∈ subs ∨ ∃ r ∈ rs, ch ∈ r.channels := by
  induction rs generalizing subs with
  | nil => simp
  | cons r rs ih =>
    rw [List.foldl_cons, ih fun r' hr' => hrs r' (List.mem_cons_of_mem _ hr')]
    cases r with
    | subscribe channels =>
      rw [show (subscribe channels).apply subs = subs ++ channels from rfl, List.mem_append]
      simp [Subscription.channels, or_assoc]
    | unsubscribe => cases hrs _ List.mem_cons_self

end Subscription

end Ulo.Rpc
