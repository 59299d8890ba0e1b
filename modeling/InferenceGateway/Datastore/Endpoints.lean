import InferenceGateway.Lib.Numerals
import InferenceGateway.RequestControl.Director
/-!
# Pods and their endpoints

A pod stands for one endpoint for each of the pool's target ports that is active on it.
The endpoint is named after the pod and the position of the port, its rank.
-/

namespace InferenceGateway.Datastore

open Lib List

structure NamespacedName where
  namespace_ : String
  name : String
deriving DecidableEq

def NamespacedName.string (n : NamespacedName) : String := n.namespace_ ++ "/" ++ n.name

structure EndpointPool where
  selector : Table String String
  targetPorts : List Int
  namespace_ : String
deriving DecidableEq

/-- A pod, as far as it is read. -/
structure Pod where
  name : String
  namespace_ : String
  labels : Table String String
  /-- The annotation for the active ports. -/
  activePorts : Option String
  podIP : String
  /-- The deletion timestamp is set. -/
  deleted : Bool
  /-- The types of the conditions, and whether they are true. -/
  conditions : List (String × Bool)
deriving DecidableEq

def Pod.namespacedName (pod : Pod) : NamespacedName := ⟨pod.namespace_, pod.name⟩

/-- The first condition of the type `Ready` counts. -/
def isPodReady (pod : Pod) : Bool := !pod.deleted && (pod.conditions.lookup "Ready").getD false

structure EndpointMetadata where
  namespacedName : NamespacedName
  podName : String
  address : String
  port : String
  metricsHost : String
  labels : Table String String
deriving DecidableEq

def createEndpointNamespacedName (pod : Pod) (idx : ℕ) : NamespacedName :=
  ⟨pod.namespace_, pod.name ++ "-rank-" ++ toString idx⟩

/-! ## Active ports -/

/-- `unicode.IsSpace`. -/
def isSpace (c : Char) : Bool :=
  c.val ∈ [9, 10, 11, 12, 13, 32, 0x85, 0xa0, 0x1680, 0x2028, 0x2029, 0x202f, 0x205f, 0x3000] ∨ (0x2000 ≤ c.val ∧ c.val ≤ 0x200a)

def trimSpace (text : List Char) : List Char := ((text.dropWhile isSpace).reverse.dropWhile isSpace).reverse

def signed (negative : Bool) (digits : List Char) : Option Int :=
  let n : Int := if negative then -digitsValue digits else digitsValue digits
  if digits ≠ [] ∧ -2 ^ 63 ≤ n ∧ n < 2 ^ 63 then some n else none

/-- `fmt.Sscanf` with the verb `d`, on a text that does not begin with a space. What comes
after the digits is not looked at. -/
def scanInt : List Char → Option Int
  | '-' :: text => signed true (text.takeWhile Char.isDigit)
  | '+' :: text => signed false (text.takeWhile Char.isDigit)
  | text => signed false (text.takeWhile Char.isDigit)

def extractActivePorts (pod : Pod) (targetPorts : List Int) : List Int :=
  match pod.activePorts with
  | none => targetPorts
  | some portsValue =>
    (portsValue.toList.splitOn ',').filterMap fun portStr =>
      (scanInt (trimSpace portStr)).filter fun portNum => 0 < portNum ∧ portNum ∈ targetPorts

example : ((" 8000, +8001x ,-1,,8002".toList.splitOn ',').map fun s => scanInt (trimSpace s)) =
    [some 8000, some 8001, some (-1), none, some 8002] := by decide +kernel

/-! ## Names -/

theorem isDigit_of_mem_toString {n : ℕ} {c : Char} (h : c ∈ (toString n).toList) : c.isDigit = true := by
  rw [Nat.toString_eq_repr, Nat.toList_repr] at h
  exact Nat.isDigit_of_mem_toDigits (by decide) (by decide) h

/-- The digits at the end of a text that has a dash before them. -/
theorem digits_at_end (front : List Char) (n : ℕ) :
    (front ++ '-' :: (toString n).toList).reverse.takeWhile Char.isDigit = (toString n).toList.reverse := by
  rw [reverse_append, reverse_cons, append_assoc, takeWhile_append_of_pos]
  · simp
  · intro c hc
    exact isDigit_of_mem_toString (mem_reverse.1 hc)

theorem createEndpointNamespacedName_congr {pod pod' : Pod} (h : pod.namespacedName = pod'.namespacedName) (idx : ℕ) :
    createEndpointNamespacedName pod idx = createEndpointNamespacedName pod' idx := by
  rw [Pod.namespacedName, Pod.namespacedName, NamespacedName.mk.injEq] at h
  rw [createEndpointNamespacedName, createEndpointNamespacedName, h.1, h.2]

/-- Different pods, or different ranks of one pod, have different endpoints. -/
theorem createEndpointNamespacedName_inj {pod pod' : Pod} {idx idx' : ℕ}
    (h : createEndpointNamespacedName pod idx = createEndpointNamespacedName pod' idx') :
    pod.namespacedName = pod'.namespacedName ∧ idx = idx' := by
  rw [createEndpointNamespacedName, createEndpointNamespacedName, NamespacedName.mk.injEq] at h
  obtain ⟨hns, hname⟩ := h
  have hsplit : ∀ (name : String) (n : ℕ), (name ++ "-rank-" ++ toString n).toList =
      (name.toList ++ "-rank".toList) ++ '-' :: (toString n).toList := by
    intro name n
    rw [String.toList_append, String.toList_append, show "-rank-".toList = "-rank".toList ++ ['-'] by decide]
    simp
  have hlists := congrArg String.toList hname
  rw [hsplit, hsplit] at hlists
  -- the rank is what the digits at the end say, whatever the pod is called
  have hdigits : toString idx = toString idx' := by
    have hends := congrArg (fun l => l.reverse.takeWhile Char.isDigit) hlists
    simp only [digits_at_end, reverse_inj] at hends
    exact String.toList_inj.1 hends
  have hidx : idx = idx' := by
    rw [Nat.toString_eq_repr, Nat.toString_eq_repr] at hdigits
    exact Nat.repr_injective hdigits
  refine ⟨?_, hidx⟩
  rw [hdigits, append_left_inj, append_left_inj] at hlists
  rw [Pod.namespacedName, Pod.namespacedName, hns, String.toList_inj.1 hlists]

end InferenceGateway.Datastore
