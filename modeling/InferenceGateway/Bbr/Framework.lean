import InferenceGateway.Handlers.RequestContext
import InferenceGateway.Parsers.Json
/-!
# A message in the hands of the router's plugins

`types.go` of the body-based router's framework: the headers and the decoded body of a
request or a response, and what has been changed of them.
-/

namespace InferenceGateway.Bbr

open Lib Parsers Handlers

variable {F : Type}

structure InferenceMessage (F : Type) where
  headers : HeaderMap
  /-- `none` is the nil map. -/
  body : Option (List (String × Any F))
  mutatedHeaders : HeaderMap
  /-- A set. -/
  removedHeaders : List String
  bodyMutated : Bool

namespace InferenceMessage

def new : InferenceMessage F := ⟨∅, some [], ∅, [], false⟩

/-- A header that is there with this value already is not a change. -/
def setHeader (key value : String) (r : InferenceMessage F) : InferenceMessage F :=
  if r.headers.lookup key = some value then r
  else { r with
    headers := r.headers.insert key value
    mutatedHeaders := r.mutatedHeaders.insert key value
    removedHeaders := r.removedHeaders.erase key }

variable (key : String)

variable (r : InferenceMessage F)

def removeHeader : InferenceMessage F :=
  if key ∈ r.headers then { r with
    headers := r.headers.erase key
    mutatedHeaders := r.mutatedHeaders.erase key
    removedHeaders := r.removedHeaders.insert key }
  else r

/-! ## The record of the headers -/

/-- A call of a plugin that changes a header. -/
inductive HeaderCall where
  | setHeader (key value : String)
  | removeHeader (key : String)

def call : HeaderCall → InferenceMessage F
  | .setHeader key value => r.setHeader key value
  | .removeHeader key => r.removeHeader key

/-- What the proxy makes of the headers that it has when it gets the record. -/
def replay (initial : HeaderMap) : HeaderMap :=
  Table.eraseAll r.removedHeaders (r.mutatedHeaders ∪ initial)

structure Recorded (initial : HeaderMap) (r : InferenceMessage F) : Prop where
  nodup : r.removedHeaders.Nodup
  apart : ∀ key ∈ r.removedHeaders, r.mutatedHeaders.lookup key = none
  current : ∀ key, r.headers.lookup key =
    if key ∈ r.removedHeaders then none else (r.mutatedHeaders.lookup key).or (initial.lookup key)

variable {initial : HeaderMap} {r : InferenceMessage F}

variable (h : r.Recorded initial)
include h

theorem Recorded.setHeader (key value : String) : (r.setHeader key value).Recorded initial := by
  unfold InferenceMessage.setHeader
  split
  · exact h
  · refine ⟨h.nodup.erase key, fun key' hkey' => ?_, fun key' => ?_⟩
    · obtain ⟨hne, hmem⟩ := h.nodup.mem_erase_iff.1 hkey'
      rw [Table.lookup_insert_ite, if_neg hne, h.apart key' hmem]
    · simp only [Table.lookup_insert_ite, h.nodup.mem_erase_iff, h.current]
      split <;> simp [*]

theorem Recorded.removeHeader : (r.removeHeader key).Recorded initial := by
  unfold InferenceMessage.removeHeader
  split
  · refine ⟨h.nodup.insert, fun key' hkey' => ?_, fun key' => ?_⟩
    · rw [Table.lookup_erase_ite]
      split
      · rfl
      · rename_i hne
        exact h.apart key' ((List.mem_insert_iff.1 hkey').resolve_left hne)
    · simp only [Table.lookup_erase_ite, List.mem_insert_iff, h.current]
      split <;> simp [*]
  · exact h

theorem Recorded.calls (calls : List HeaderCall) : (calls.foldl call r).Recorded initial := by
  induction calls generalizing r with
  | nil => exact h
  | cons c rest ih =>
    cases c with
    | setHeader key value => exact ih (h.setHeader key value)
    | removeHeader key => exact ih (h.removeHeader key)

theorem Recorded.lookup_replay :
    (r.replay initial).lookup key = r.headers.lookup key := by
  have hunion : (r.mutatedHeaders ∪ initial).lookup key = (r.mutatedHeaders.lookup key).or (initial.lookup key) := by
    by_cases hkey : key ∈ r.mutatedHeaders
    · obtain ⟨value, hvalue⟩ := Table.mem_iff_lookup.1 hkey
      rw [AList.lookup_union_left hkey, hvalue, Option.some_or]
    · rw [AList.lookup_union_right hkey, AList.lookup_eq_none.2 hkey, Option.none_or]
  rw [replay, Table.lookup_eraseAll, hunion, h.current]

omit h

/-- Whatever the plugins call, the record made over into the first headers gives the
present ones, and no header is both set and removed. -/
theorem replay_calls (initial : HeaderMap) (body : Option (List (String × Any F))) (calls : List HeaderCall) :
    let r := calls.foldl call { (new : InferenceMessage F) with headers := initial, body := body }
    (∀ key, (r.replay initial).lookup key = r.headers.lookup key) ∧
      ∀ key ∈ r.removedHeaders, key ∉ r.mutatedHeaders := by
  have hnew : Recorded initial { (new : InferenceMessage F) with headers := initial, body := body } :=
    ⟨List.nodup_nil, fun _ _ => rfl, fun _ => rfl⟩
  have h := hnew.calls calls
  exact ⟨h.lookup_replay, fun key hkey => AList.lookup_eq_none.1 (h.apart key hkey)⟩

end InferenceMessage

end InferenceGateway.Bbr
