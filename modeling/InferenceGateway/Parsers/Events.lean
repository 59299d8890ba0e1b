import InferenceGateway.Parsers.OpenAI
/-!
# Events and their usage

A text of server-sent events is read chunk by chunk. In a chunk the first event that
yields a usage decides, and all events are decoded into one struct, so that one may
yield what an earlier one left there. This compares the usage an event yields in its
place with the one it carries for itself.
-/

namespace InferenceGateway.Parsers.OpenAI

open Lib List

variable (lib : Library)

/-- The usage that a decoded event yields. -/
def eventUsage (r : StreamResponse lib × Bool) : Except Panic (Option Usage) :=
  if r.2 then .ok none
  else
    match r.1.usage, r.1.response.usage with
    | some usage, _ => .ok (some usage)
    | none, none => .ok none
    | none, some usg =>
      if r.1.type = "response.completed" then usageOf lib [("usage", .map usg), ("object", .str r.1.response.object)]
      else .ok none

/-- The events of a text. -/
def eventsOf (text : List UInt8) : List Json := (text.splitOn 10).filterMap (eventOf lib)

/-- The usage that an event carries for itself. -/
def usageAlone (event : Json) : Except Panic (Option Usage) := eventUsage lib (decodeEvent lib (.zero lib) event)

/-- The struct that events leave. -/
def leftBy (s : StreamResponse lib) (events : List Json) : StreamResponse lib :=
  events.foldl (fun s event => (decodeEvent lib s event).1) s

/-- The usage of an event that carries one. -/
def carried (event : Json) : Option Usage :=
  match usageAlone lib event with
  | .ok (some usage) => some usage
  | _ => none

/-- The last event that carries a usage decides. -/
def lastUsage (events : List Json) : Option Usage := (events.filterMap (carried lib)).getLast?

/-! ## Texts that can be read in chunks -/

/-- The struct an event makes for itself. -/
def alone (event : Json) : StreamResponse lib := (decodeEvent lib (.zero lib) event).1

/-- The values that an event has for a field, and those its response has. -/
abbrev valuesOf (name : String) (event : Json) : List Json := fieldValues lib ["usage", "response", "type"] name event

abbrev responseValuesOf (name : String) (event : Json) : List Json :=
  (valuesOf lib "response" event).flatMap (fieldValues lib ["usage", "object"] name)

/-- Of the values for a field one is a string. -/
def Says (values : List Json) : Prop := ∃ s, .str s ∈ values

/-- The event is a completed response, or does not say its type and an event before it is one. -/
def Completes (before : List Json) (event : Json) : Prop :=
  (alone lib event).type = "response.completed" ∨
    ¬ Says (valuesOf lib "type" event) ∧ ∃ e ∈ before, (alone lib e).type = "response.completed"

/-- Nothing that the events before it say is missing in the event: none of them has a usage,
which is so for those that can be decoded and carry none; where the event completes, no
response before it has a usage; and if its own has one, it is itself a completed response
and names its object, or none before it does. -/
structure Independent (before : List Json) (event : Json) : Prop where
  usage : ∀ e ∈ before, (alone lib e).usage = none
  response : Completes lib before event → ∀ e ∈ before, (alone lib e).response.usage = none
  object : Completes lib before event → (alone lib event).response.usage.isSome →
    (alone lib event).type = "response.completed" ∧
      (Says (responseValuesOf lib "object" event) ∨ ∀ e ∈ before, ¬ Says (responseValuesOf lib "object" e))

/-- The events of a chunk that are read: those up to the first with a usage. -/
def ReadIn (chunk : List UInt8) (before : List Json) (event : Json) : Prop :=
  (∃ after, eventsOf lib chunk = before ++ event :: after) ∧ ∀ e ∈ before, carried lib e = none

/-- The text comes in chunks that can be read one by one: the events with a usage in the chunks
are those of the text; of the events that are read, none has a usage of the wrong type and
each that can be decoded is independent; and the last chunk that has a usage has only one. -/
structure Readable (chunks : List (List UInt8)) : Prop where
  whole : (chunks.flatMap (eventsOf lib)).filterMap (carried lib) = (eventsOf lib chunks.flatten).filterMap (carried lib)
  typed : ∀ chunk ∈ chunks, ∀ before event, ReadIn lib chunk before event → Returns (usageAlone lib event)
  independent : ∀ chunk ∈ chunks, ∀ before event, ReadIn lib chunk before event →
    (decodeEvent lib (.zero lib) event).2 = false → Independent lib before event
  single : ∀ before chunk after, chunks = before ++ chunk :: after → (∀ c ∈ after, ∀ event ∈ eventsOf lib c, carried lib event = none) →
    ((eventsOf lib chunk).filterMap (carried lib)).length ≤ 1

variable {lib}

/-! ## What an event finds -/

theorem decodeDetails_error (old old' : PromptTokenDetails) (j : Json) :
    (decodeDetails lib old j).2 = (decodeDetails lib old' j).2 := by
  refine decodeStruct_error (fun s s' n v => ?_) old old' j
  exact decodeInt_error ..

theorem decodeUsage_error (old old' : Usage) (j : Json) : (decodeUsage lib old j).2 = (decodeUsage lib old' j).2 := by
  refine decodeStruct_error (fun s s' n v => ?_) old old' j
  split_ifs
  · exact decodeInt_error ..
  · exact decodeInt_error ..
  · exact decodeInt_error ..
  · exact decodePointer_error decodeDetails_error ..

theorem decodeMap_error (old old' : Option (AnyMap lib)) (j : Json) : (decodeMap lib old j).2 = (decodeMap lib old' j).2 := by
  cases j <;> rfl

theorem decodeString_error (old old' : String) (j : Json) : (decodeString old j).2 = (decodeString old' j).2 := by
  cases j <;> rfl

theorem decodeResponse_error (old old' : ResponseObject lib) (j : Json) :
    (decodeResponse lib old j).2 = (decodeResponse lib old' j).2 := by
  refine decodeStruct_error (fun s s' n v => ?_) old old' j
  split_ifs
  · exact decodeMap_error ..
  · exact decodeString_error ..

theorem decodeEvent_error (old old' : StreamResponse lib) (event : Json) :
    (decodeEvent lib old event).2 = (decodeEvent lib old' event).2 := by
  refine decodeStruct_error (fun s s' n v => ?_) old old' event
  split_ifs
  · exact decodePointer_error decodeUsage_error ..
  · exact decodeResponse_error ..
  · exact decodeString_error ..

/-- What an event makes of the usage, of the response and of the type does not depend on the others. -/
theorem decodeEvent_usage (s : StreamResponse lib) (event : Json) : (decodeEvent lib s event).1.usage =
    (valuesOf lib "usage" event).foldl (fun u v => (decodePointer (decodeUsage lib) ⟨0, 0, 0, none⟩ u v).1) s.usage := by
  refine decodeStruct_field StreamResponse.usage _ "usage" (fun s n hn v => ?_) s event
  fin_cases hn <;> rfl

theorem decodeEvent_type (s : StreamResponse lib) (event : Json) :
    (decodeEvent lib s event).1.type = (valuesOf lib "type" event).foldl (fun t v => (decodeString t v).1) s.type := by
  refine decodeStruct_field StreamResponse.type _ "type" (fun s n hn v => ?_) s event
  fin_cases hn <;> rfl

theorem decodeEvent_response (s : StreamResponse lib) (event : Json) : (decodeEvent lib s event).1.response =
    (valuesOf lib "response" event).foldl (fun o v => (decodeResponse lib o v).1) s.response := by
  refine decodeStruct_field StreamResponse.response _ "response" (fun s n hn v => ?_) s event
  fin_cases hn <;> rfl

theorem decodeEvent_responseUsage (s : StreamResponse lib) (event : Json) : (decodeEvent lib s event).1.response.usage =
    (responseValuesOf lib "usage" event).foldl (fun u v => (decodeMap lib u v).1) s.response.usage := by
  rw [decodeEvent_response, foldl_flatMap]
  refine (foldl_hom ResponseObject.usage fun o j => ?_).symm
  refine (decodeStruct_field ResponseObject.usage _ "usage" (fun s n hn v => ?_) o j).symm
  fin_cases hn <;> rfl

theorem decodeEvent_object (s : StreamResponse lib) (event : Json) : (decodeEvent lib s event).1.response.object =
    (responseValuesOf lib "object" event).foldl (fun t v => (decodeString t v).1) s.response.object := by
  rw [decodeEvent_response, foldl_flatMap]
  refine (foldl_hom ResponseObject.object fun o j => ?_).symm
  refine (decodeStruct_field ResponseObject.object _ "object" (fun s n hn v => ?_) o j).symm
  fin_cases hn <;> rfl

theorem decodeString_of_not_str {j : Json} (h : ∀ s, j ≠ .str s) (old : String) : (decodeString old j).1 = old := by
  cases j with
  | str s => exact absurd rfl (h s)
  | null | bool | num | arr | obj => rfl

/-- A string that is not said stays, and one that is said is the same whatever was there. -/
theorem foldl_of_silent {values : List Json} (h : ¬ Says values) (old : String) :
    values.foldl (fun t v => (decodeString t v).1) old = old := by
  induction values generalizing old with
  | nil => rfl
  | cons v values ih =>
    have hv : ∀ s, v ≠ .str s := fun s heq => h ⟨s, heq ▸ mem_cons_self⟩
    rw [foldl_cons, decodeString_of_not_str hv]
    exact ih (fun ⟨s, hs⟩ => h ⟨s, mem_cons_of_mem _ hs⟩) old

theorem foldl_of_told {values : List Json} (h : Says values) (old old' : String) :
    values.foldl (fun t v => (decodeString t v).1) old = values.foldl (fun t v => (decodeString t v).1) old' := by
  induction values generalizing old old' with
  | nil => exact absurd h fun ⟨_, hs⟩ => not_mem_nil hs
  | cons v values ih =>
    by_cases hrest : Says values
    · exact ih hrest _ _
    · obtain ⟨s, hs⟩ := h
      obtain rfl : v = .str s := ((mem_cons.1 hs).resolve_right fun hmem => hrest ⟨s, hmem⟩).symm
      rfl

/-! What is there after events of which none has it. -/

theorem leftBy_append (s : StreamResponse lib) (before : List Json) (event : Json) :
    leftBy lib s (before ++ [event]) = (decodeEvent lib (leftBy lib s before) event).1 := by
  simp [leftBy]

theorem leftBy_usage {before : List Json} (h : ∀ e ∈ before, (alone lib e).usage = none) :
    (leftBy lib (.zero lib) before).usage = none := by
  induction before using reverseRecOn with
  | nil => rfl
  | append_singleton before e ih =>
    rw [leftBy_append, decodeEvent_usage, ih fun e' he' => h e' (mem_append_left _ he')]
    exact (decodeEvent_usage (.zero lib) e).symm.trans (h e (by simp))

theorem leftBy_responseUsage {before : List Json} (h : ∀ e ∈ before, (alone lib e).response.usage = none) :
    (leftBy lib (.zero lib) before).response.usage = none := by
  induction before using reverseRecOn with
  | nil => rfl
  | append_singleton before e ih =>
    rw [leftBy_append, decodeEvent_responseUsage, ih fun e' he' => h e' (mem_append_left _ he')]
    exact (decodeEvent_responseUsage (.zero lib) e).symm.trans (h e (by simp))

theorem leftBy_object {before : List Json} (h : ∀ e ∈ before, ¬ Says (responseValuesOf lib "object" e)) :
    (leftBy lib (.zero lib) before).response.object = "" := by
  induction before using reverseRecOn with
  | nil => rfl
  | append_singleton before e ih =>
    rw [leftBy_append, decodeEvent_object, foldl_of_silent (h e (by simp))]
    exact ih fun e' he' => h e' (mem_append_left _ he')

/-- The type an event says is its own, and otherwise the one that is there. -/
theorem decodeEvent_type_of_told {event : Json} (h : Says (valuesOf lib "type" event)) (s : StreamResponse lib) :
    (decodeEvent lib s event).1.type = (alone lib event).type := by
  rw [alone, decodeEvent_type, decodeEvent_type]
  exact foldl_of_told h ..

theorem decodeEvent_type_of_silent {event : Json} (h : ¬ Says (valuesOf lib "type" event)) (s : StreamResponse lib) :
    (decodeEvent lib s event).1.type = s.type := by
  rw [decodeEvent_type]
  exact foldl_of_silent h _

theorem leftBy_type {type : String} (htype : type ≠ "") {before : List Json} (h : ∀ e ∈ before, (alone lib e).type ≠ type) :
    (leftBy lib (.zero lib) before).type ≠ type := by
  induction before using reverseRecOn with
  | nil => exact htype.symm
  | append_singleton before e ih =>
    rw [leftBy_append]
    by_cases htold : Says (valuesOf lib "type" e)
    · rw [decodeEvent_type_of_told htold]
      exact h e (by simp)
    · rw [decodeEvent_type_of_silent htold]
      exact ih fun e' he' => h e' (mem_append_left _ he')

/-- An event that is not completed by itself or by those before it yields no usage of a response. -/
theorem type_ne_of_not_completes {before : List Json} {event : Json} (h : ¬ Completes lib before event) :
    (alone lib event).type ≠ "response.completed" ∧
      (decodeEvent lib (leftBy lib (.zero lib) before) event).1.type ≠ "response.completed" := by
  obtain ⟨hown, hbefore⟩ := not_or.1 h
  refine ⟨hown, ?_⟩
  by_cases htold : Says (valuesOf lib "type" event)
  · rwa [decodeEvent_type_of_told htold]
  · rw [decodeEvent_type_of_silent htold]
    exact leftBy_type (by decide) fun e he heq => hbefore ⟨htold, e, he, heq⟩

/-- What is yielded depends on the type only where there is a usage of a response, and on that
only where the type is right. -/
theorem eventUsage_congr {r r' : StreamResponse lib × Bool} (herror : r.2 = r'.2) (husage : r.1.usage = r'.1.usage)
    (hresponse : (r'.1.type ≠ "response.completed" ∧ r.1.type ≠ "response.completed") ∨
      (r.1.response.usage = r'.1.response.usage ∧
        (r'.1.response.usage.isSome → r.1.type = r'.1.type ∧ r.1.response.object = r'.1.response.object))) :
    eventUsage lib r = eventUsage lib r' := by
  unfold eventUsage
  rw [herror, husage]
  rcases hresponse with ⟨htype', htype⟩ | ⟨hsame, hrest⟩
  · simp only [htype', htype, if_false]
    cases r'.1.usage <;> cases r.1.response.usage <;> cases r'.1.response.usage <;> rfl
  · rw [hsame]
    cases hr : r'.1.response.usage with
    | none => cases r'.1.usage <;> rfl
    | some usg =>
      obtain ⟨htype, hobject⟩ := hrest (by rw [hr]; rfl)
      rw [htype, hobject]

/-- An independent event yields in its place what it carries. -/
theorem Independent.eventUsage_eq {before : List Json} {event : Json} (h : Independent lib before event) :
    eventUsage lib (decodeEvent lib (leftBy lib (.zero lib) before) event) = usageAlone lib event := by
  refine eventUsage_congr (decodeEvent_error ..) ?_ ?_
  · rw [decodeEvent_usage, decodeEvent_usage, leftBy_usage h.usage]
    rfl
  · by_cases hcompletes : Completes lib before event
    · refine .inr ⟨?_, fun hsome => ?_⟩
      · rw [decodeEvent_responseUsage, decodeEvent_responseUsage, leftBy_responseUsage (h.response hcompletes)]
        rfl
      · obtain ⟨hown, hobject⟩ := h.object hcompletes hsome
        have htold : Says (valuesOf lib "type" event) := by
          by_contra hnot
          rw [alone, decodeEvent_type_of_silent hnot] at hown
          have hempty : "" ≠ "response.completed" := by decide
          exact hempty hown
        refine ⟨decodeEvent_type_of_told htold _, ?_⟩
        rw [decodeEvent_object, decodeEvent_object]
        by_cases htold : Says (responseValuesOf lib "object" event)
        · exact foldl_of_told htold ..
        · rw [leftBy_object (hobject.resolve_left htold)]
          rfl
    · exact .inl (type_ne_of_not_completes hcompletes)

/-! ## Lines -/

theorem usageOfLines_none {line : List UInt8} (h : eventOf lib line = none) (lines : List (List UInt8)) (s : StreamResponse lib) :
    usageOfLines lib (line :: lines) s = usageOfLines lib lines s := by
  rw [usageOfLines, h]

theorem usageOfLines_some {line : List UInt8} {event : Json} (h : eventOf lib line = some event) (lines : List (List UInt8))
    (s : StreamResponse lib) :
    usageOfLines lib (line :: lines) s = (eventUsage lib (decodeEvent lib s event) >>= fun usage =>
      if usage.isSome then .ok usage else usageOfLines lib lines (decodeEvent lib s event).1) := by
  rw [usageOfLines, h]
  dsimp only
  rcases decodeEvent lib s event with ⟨s', _ | _⟩
  · unfold eventUsage
    dsimp only
    rcases s'.usage with _ | usage
    · rcases s'.response.usage with _ | usg
      · rfl
      · dsimp only
        by_cases htype : s'.type = "response.completed"
        · simp only [htype, if_true, Bool.false_eq_true, if_false]
          refine bind_congr fun usage => ?_
          cases usage <;> rfl
        · simp only [htype, if_false, Bool.false_eq_true]
          rfl
    · rfl
  · rfl

/-- Where no event up to the first with a usage yields what another left, that usage is returned. -/
theorem usageOfLines_eq (lines : List (List UInt8)) : ∀ s : StreamResponse lib,
    (∀ before event after, lines.filterMap (eventOf lib) = before ++ event :: after → (∀ e ∈ before, carried lib e = none) →
      Returns (usageAlone lib event) ∧
        eventUsage lib (decodeEvent lib (leftBy lib s before) event) = usageAlone lib event) →
    usageOfLines lib lines s = .ok ((lines.filterMap (eventOf lib)).filterMap (carried lib)).head? := by
  induction lines with
  | nil => exact fun _ _ => rfl
  | cons line lines ih =>
    intro s h
    cases hevent : eventOf lib line with
    | none =>
      rw [filterMap_cons_none hevent] at h ⊢
      rw [usageOfLines_none hevent]
      exact ih s h
    | some event =>
      rw [filterMap_cons_some hevent] at h ⊢
      obtain ⟨⟨usage, husage⟩, halone⟩ := h [] event _ rfl (fun _ he => absurd he not_mem_nil)
      change eventUsage lib (decodeEvent lib s event) = usageAlone lib event at halone
      rw [usageOfLines_some hevent, halone, husage, ok_bind]
      cases usage with
      | some usage => simp [carried, husage]
      | none =>
        have hnone : carried lib event = none := by simp [carried, husage]
        rw [if_neg (by simp), filterMap_cons_none hnone]
        refine ih (decodeEvent lib s event).1 fun before e after heq hbefore => ?_
        exact h (event :: before) e after (by rw [heq]; rfl) (forall_mem_cons.2 ⟨hnone, hbefore⟩)

theorem extractUsageStreaming_eq {chunk : List UInt8}
    (htyped : ∀ before event, ReadIn lib chunk before event → Returns (usageAlone lib event))
    (hindependent : ∀ before event, ReadIn lib chunk before event →
      (decodeEvent lib (.zero lib) event).2 = false → Independent lib before event) :
    extractUsageStreaming lib chunk = .ok ((eventsOf lib chunk).filterMap (carried lib)).head? := by
  refine usageOfLines_eq _ _ fun before event after heq hbefore => ?_
  have hread : ReadIn lib chunk before event := ⟨⟨after, heq⟩, hbefore⟩
  refine ⟨htyped before event hread, ?_⟩
  cases herror : (decodeEvent lib (.zero lib) event).2 with
  | false => exact (hindependent before event hread herror).eventUsage_eq
  | true =>
    -- an event that cannot be decoded yields nothing
    rw [usageAlone, eventUsage, if_pos ((decodeEvent_error ..).trans herror), eventUsage, if_pos herror]

/-! ## Chunks -/

/-- What is recorded when each chunk yields its first usage, and the later one counts. -/
def recorded (lib : Library) (old : Usage) (chunks : List (List UInt8)) : Usage :=
  chunks.foldl (fun usage chunk => (((eventsOf lib chunk).filterMap (carried lib)).head?).getD usage) old

theorem head?_eq_getLast? {α : Type} {l : List α} (h : l.length ≤ 1) : l.head? = l.getLast? := by
  match l with
  | [] => rfl
  | [_] => rfl
  | _ :: _ :: _ => simp at h

theorem recorded_eq : ∀ {chunks : List (List UInt8)} {old : Usage},
    (∀ before chunk after, chunks = before ++ chunk :: after → (∀ c ∈ after, ∀ event ∈ eventsOf lib c, carried lib event = none) →
      ((eventsOf lib chunk).filterMap (carried lib)).length ≤ 1) →
    recorded lib old chunks = (lastUsage lib (chunks.flatMap (eventsOf lib))).getD old
  | [], _, _ => rfl
  | chunk :: chunks, old, h => by
    have htail := fun before c after (heq : chunks = before ++ c :: after) =>
      h (chunk :: before) c after (by rw [heq]; rfl)
    rw [recorded, foldl_cons]
    refine (recorded_eq htail).trans ?_
    rw [flatMap_cons]
    unfold lastUsage
    rw [filterMap_append, List.getLast?_append]
    cases hlast : ((chunks.flatMap (eventsOf lib)).filterMap (carried lib)).getLast? with
    | some usage => rfl
    | none =>
      -- no later chunk has a usage, so this one has at most one
      rw [List.getLast?_eq_none_iff, filterMap_eq_nil_iff] at hlast
      have hsingle := h [] chunk chunks rfl fun c hc event he => hlast event (mem_flatMap.2 ⟨c, hc, he⟩)
      rw [head?_eq_getLast? hsingle]
      rfl

theorem Readable.recorded_eq {chunks : List (List UInt8)} (h : Readable lib chunks) (old : Usage) :
    recorded lib old chunks = (lastUsage lib (eventsOf lib chunks.flatten)).getD old := by
  rw [OpenAI.recorded_eq h.single]
  unfold lastUsage
  rw [h.whole]

/-- An event that comes first is independent. -/
theorem independent_nil (event : Json) : Independent lib [] event where
  usage _ he := absurd he not_mem_nil
  response _ _ he := absurd he not_mem_nil
  object hcompletes _ := ⟨hcompletes.resolve_right fun ⟨_, _, he, _⟩ => not_mem_nil he, .inr fun _ he => absurd he not_mem_nil⟩

/-- One event to a chunk is enough, where none is cut. -/
theorem readable_of_one {chunks : List (List UInt8)} (hwhole : chunks.flatMap (eventsOf lib) = eventsOf lib chunks.flatten)
    (hone : ∀ chunk ∈ chunks, (eventsOf lib chunk).length ≤ 1)
    (htyped : ∀ chunk ∈ chunks, ∀ event ∈ eventsOf lib chunk, Returns (usageAlone lib event)) : Readable lib chunks where
  whole := by rw [hwhole]
  typed := by
    rintro chunk hchunk before event ⟨⟨after, heq⟩, -⟩
    exact htyped chunk hchunk event (by rw [heq]; simp)
  independent := by
    rintro chunk hchunk before event ⟨⟨after, heq⟩, -⟩ -
    have hlen := hone chunk hchunk
    rw [heq, length_append, length_cons] at hlen
    obtain rfl : before = [] := length_eq_zero_iff.1 (by omega)
    exact independent_nil event
  single before chunk after heq _ :=
    (length_filterMap_le ..).trans (hone chunk (by rw [heq]; simp))

end InferenceGateway.Parsers.OpenAI
