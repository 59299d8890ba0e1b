import InferenceGateway.Handlers.Completion
import InferenceGateway.RequestControl.Candidates
/-!
# Destinations given back as a subset

The destination that the picker emits for an endpoint is its address and its port. The lookup
of a subset takes what is before the last colon for the address. The two agree on the
destination of a request without a body. A scheduled request has an address with colons
in brackets, which the lookup does not take away, and several targets in one text, which it
does not take apart.
-/

namespace InferenceGateway.RequestControl

open Lib Parsers Handlers List

variable {F : Type}

/-- What a scheduled request gets whose primary profile has the targets. -/
def ScheduledTo (targets : List EndpointMetadata) (destination : String) : Prop :=
  ∃ (d : Director F) (reqCtx : RequestContext) (request : LLMRequest) (result : SchedulingResult),
    result.profileResults.lookup result.primaryProfileName = some targets ∧
      (d.prepareRequest reqCtx request (some result)).1.targetEndpoint = destination

/-- What a request without a body gets when the target has been picked. -/
def SentTo (target : EndpointMetadata) (destination : String) : Prop :=
  ∃ (trace : TraceContext) (reqCtx : RequestContext) (headers : List HeaderValue),
    (handleRequestHeaders trace (some target) reqCtx headers true).1.targetEndpoint = destination

variable {target : EndpointMetadata} {targets : List EndpointMetadata} {destination : String}

theorem ScheduledTo.eq (hmem : target ∈ targets) (h : ScheduledTo (F := F) targets destination) :
    destination = ",".intercalate (targets.map fun e => joinHostPort e.address e.port) := by
  obtain ⟨d, reqCtx, request, result, hlookup, rfl⟩ := h
  have hentries : result.profileResults.entries ≠ [] := by
    intro hnil
    have hmem := Table.lookup_mem_entries.2 hlookup
    rw [hnil] at hmem
    cases hmem
  unfold Director.prepareRequest
  cases targets with
  | nil => cases hmem
  | cons first targets =>
    simp only [if_neg hentries, hlookup]
    split <;> rfl

theorem SentTo.eq (h : SentTo target destination) : destination = target.address ++ ":" ++ target.port := by
  obtain ⟨trace, reqCtx, headers, rfl⟩ := h
  rfl

/-- The last colon is the one before the port. -/
theorem addressOf_append (address : String) {port : String} (h : ':' ∉ port.toList) : addressOf (address ++ ":" ++ port) = address := by
  have hreverse : (address ++ ":" ++ port).toList.reverse = port.toList.reverse ++ ':' :: address.toList.reverse := by
    simp
  have hport : ∀ c ∈ port.toList.reverse, decide (c ≠ ':') = true := by
    intro c hc
    refine decide_eq_true fun heq => h ?_
    rw [← heq]
    exact mem_reverse.1 hc
  unfold addressOf
  rw [hreverse, dropWhile_append_of_pos hport]
  simp

/-- An address as `net.JoinHostPort` writes it. -/
def bracketed (host : String) : String := if ':' ∈ host.toList then "[" ++ host ++ "]" else host

theorem joinHostPort_eq (host port : String) : joinHostPort host port = bracketed host ++ ":" ++ port := by
  unfold joinHostPort bracketed
  split
  · rw [String.append_assoc, String.append_assoc, String.append_assoc, String.append_assoc]
    rfl
  · rfl

theorem bracketed_eq_self {host : String} : bracketed host = host ↔ ':' ∉ host.toList := by
  unfold bracketed
  split
  · rename_i hcolon
    refine iff_of_false (fun heq => ?_) (not_not.2 hcolon)
    have hlength := congrArg (fun text => text.toList.length) heq
    simp only [String.toList_append, length_append] at hlength
    have hbracket : "[".toList.length = 1 := rfl
    omega
  · rename_i hcolon
    exact iff_of_true rfl hcolon

/-- Before the last colon there is the address of a single target, or a list with a comma in it. -/
theorem exists_addressOf (targets : List EndpointMetadata) : ∀ first : EndpointMetadata,
    (∀ t ∈ first :: targets, ':' ∉ t.port.toList) → ∃ address port, ':' ∉ port.toList ∧
      ",".intercalate ((first :: targets).map fun e => joinHostPort e.address e.port) = address ++ ":" ++ port ∧
      (targets = [] → address = bracketed first.address) ∧ (targets ≠ [] → ',' ∈ address.toList) := by
  induction targets with
  | nil =>
    intro first hports
    exact ⟨_, _, hports first mem_cons_self, joinHostPort_eq .., fun _ => rfl, fun hne => absurd rfl hne⟩
  | cons second targets ih =>
    intro first hports
    obtain ⟨address, port, hport, heq, -, -⟩ := ih second fun t ht => hports t (mem_cons_of_mem _ ht)
    refine ⟨joinHostPort first.address first.port ++ "," ++ address, port, hport, ?_, nofun, fun _ => by simp⟩
    rw [map_cons, String.intercalate_cons_of_ne_nil (by simp), heq]
    simp only [String.append_assoc]

theorem addressOf_scheduled (hmem : target ∈ targets) (hcomma : ',' ∉ target.address.toList)
    (hports : ∀ t ∈ targets, ':' ∉ t.port.toList) :
    addressOf (",".intercalate (targets.map fun e => joinHostPort e.address e.port)) = target.address ↔
      targets = [target] ∧ ':' ∉ target.address.toList := by
  cases targets with
  | nil => cases hmem
  | cons first targets =>
    obtain ⟨address, port, hport, heq, hone, hmany⟩ := exists_addressOf targets _ hports
    rw [heq, addressOf_append _ hport]
    by_cases hnil : targets = []
    · subst hnil
      rw [mem_singleton] at hmem
      subst hmem
      rw [hone rfl, bracketed_eq_self]
      simp
    · refine iff_of_false (fun haddress => hcomma (haddress ▸ hmany hnil)) fun h => hnil ?_
      exact (cons.inj h.1).2

/-! ## The lookup -/

variable (F) in
/-- Given back in a list, the destination selects every endpoint that has the target's metadata. -/
def Selects (d : DatastoreEndpointCandidates) (target : EndpointMetadata) (destination : String) : Prop :=
  ∀ (pods : List Endpoint) (ep : Endpoint) (requestMetadata : Metadata F) (list : List (Any F)), ep ∈ pods →
    ep.metadata = some target → endpointSubsetList requestMetadata = some list → .str destination ∈ list →
      ep ∈ d.locate pods requestMetadata

/-- Metadata that lists one destination. -/
def subsetOf (destination : String) : Metadata F :=
  some [(subsetFilterNamespace, .map [(subsetFilterKey, .arr [.str destination])])]

theorem selects_iff {d : DatastoreEndpointCandidates} :
    Selects F d target destination ↔ d.disableEndpointSubsetFilter = true ∨ addressOf destination = target.address := by
  constructor
  · intro h
    by_contra! hno
    have hlist : endpointSubsetList (F := F) (subsetOf destination) = some [.str destination] := rfl
    have hin := h [⟨"", some target⟩] ⟨"", some target⟩ (subsetOf destination) _ mem_cons_self rfl hlist mem_cons_self
    rw [DatastoreEndpointCandidates.locate, if_neg hno.1, hlist] at hin
    simp [stringsOf, hno.2.symm] at hin
  · intro h pods ep requestMetadata list hep hmetadata hlist hmem
    unfold DatastoreEndpointCandidates.locate
    split
    · exact hep
    · rename_i henabled
      have hstring : destination ∈ stringsOf list := mem_filterMap.2 ⟨_, hmem, rfl⟩
      have hin : target.address ∈ (stringsOf list).map addressOf :=
        List.mem_map.2 ⟨destination, hstring, h.resolve_left henabled⟩
      rw [hlist]
      cases list with
      | nil => cases hmem
      | cons x list =>
        simp only [mem_filter, hmetadata, Option.any_some, hin, decide_true]
        exact ⟨hep, trivial⟩

/-- The destination of a request without a body selects its endpoint. That of a scheduled request does if and only if
the filter is disabled, or the endpoint is the only target and its address has no colon. -/
theorem destination_selects_iff (d : DatastoreEndpointCandidates) (target : EndpointMetadata) (targets : List EndpointMetadata)
    (destination : String) (hmem : target ∈ targets) (hcomma : ',' ∉ target.address.toList)
    (hports : ∀ t ∈ targets, ':' ∉ t.port.toList) :
    (SentTo target destination → Selects F d target destination) ∧
    (ScheduledTo (F := F) targets destination → (Selects F d target destination ↔
      d.disableEndpointSubsetFilter = true ∨ targets = [target] ∧ ':' ∉ target.address.toList)) := by
  refine ⟨fun hsent => selects_iff.2 (.inr ?_), fun hscheduled => ?_⟩
  · rw [hsent.eq]
    exact addressOf_append target.address (hports target hmem)
  · rw [selects_iff, hscheduled.eq hmem, addressOf_scheduled hmem hcomma hports]

def podAt (address : String) : Endpoint := ⟨"pod", some ⟨address, "8080"⟩⟩

theorem scheduledTo_one (target : EndpointMetadata) : ScheduledTo (F := Unit) [target] (joinHostPort target.address target.port) :=
  ⟨oneEndpoint target, .new, ⟨"", "", false, ∅, 0, 0⟩, ⟨AList.singleton "default" [target], "default"⟩, rfl, rfl⟩

/-- An IPv6 address on the path without a body, and an IPv4 address on the other. -/
theorem destination_selects_iff_paths :
    podAt "::1" ∈ (⟨false⟩ : DatastoreEndpointCandidates).locate [podAt "::1"] (subsetOf (F := Unit) "::1:8080") ∧
    podAt "10.0.0.1" ∈ (⟨false⟩ : DatastoreEndpointCandidates).locate [podAt "10.0.0.1"] (subsetOf (F := Unit) "10.0.0.1:8080") :=
  ⟨(destination_selects_iff ⟨false⟩ ⟨"::1", "8080"⟩ [⟨"::1", "8080"⟩] "::1:8080" mem_cons_self (by decide) (by decide)).1
      ⟨⟨none, none, none⟩, .new, [], rfl⟩ _ (podAt "::1") (subsetOf "::1:8080") _ mem_cons_self rfl rfl mem_cons_self,
    ((destination_selects_iff ⟨false⟩ ⟨"10.0.0.1", "8080"⟩ [⟨"10.0.0.1", "8080"⟩] "10.0.0.1:8080" mem_cons_self (by decide)
      (by decide)).2 (scheduledTo_one ⟨"10.0.0.1", "8080"⟩)).2 (.inr (by decide)) _ (podAt "10.0.0.1") (subsetOf "10.0.0.1:8080") _
      mem_cons_self rfl rfl mem_cons_self⟩

/-- The destination of a scheduled request for an IPv6 address selects nothing. -/
theorem destination_brackets_lost :
    ScheduledTo (F := Unit) [⟨"::1", "8080"⟩] "[::1]:8080" ∧
    (⟨false⟩ : DatastoreEndpointCandidates).locate [podAt "::1"] (subsetOf (F := Unit) "[::1]:8080") = [] :=
  ⟨scheduledTo_one ⟨"::1", "8080"⟩, by decide +kernel⟩

end InferenceGateway.RequestControl
