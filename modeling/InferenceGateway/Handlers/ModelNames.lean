import InferenceGateway.Handlers.Process
import InferenceGateway.Lib.Replace
/-!
# Model names in a streamed response

Each chunk is rewritten for itself. The field is searched for in its compact form, and
in the spaced one only where the compact one was not found. So a field that lies
across a cut is not seen, and of two forms in one body only one is.
-/

namespace InferenceGateway.Handlers

open Lib

/-! ## Fields -/

/-- The text of the field, compact or with a blank, for the bytes of a name. -/
def fieldBytes (spaced : Bool) (name : List UInt8) : List UInt8 :=
  34 :: ([109, 111, 100, 101, 108, 34, 58] ++ (if spaced then [32] else []) ++ 34 :: name) ++ [34]

def nameBytes (name : String) : List UInt8 := name.toUTF8.data.toList

/-- A name that ends where a quote says so and cannot be taken for the key. -/
def PlainName (name : List UInt8) : Prop := 34 ∉ name ∧ name ≠ [109, 111, 100, 101, 108]

/-- The fields of plain names. -/
def Field (w : List UInt8) : Prop := ∃ spaced name, PlainName name ∧ w = fieldBytes spaced name

theorem modelField_compact (name : String) : modelField "\"model\":\"" name = fieldBytes false (nameBytes name) := by
  simp only [modelField, fieldBytes, nameBytes, String.toUTF8_eq_toByteArray, String.toByteArray_append,
    ByteArray.data_append, Array.toList_append]
  rfl

theorem modelField_spaced (name : String) : modelField "\"model\": \"" name = fieldBytes true (nameBytes name) := by
  simp only [modelField, fieldBytes, nameBytes, String.toUTF8_eq_toByteArray, String.toByteArray_append,
    ByteArray.data_append, Array.toList_append]
  rfl

theorem nameBytes_injective : Function.Injective nameBytes := by
  intro a b h
  have hdata : a.toUTF8.data = b.toUTF8.data := Array.toList_inj.1 h
  exact String.toByteArray_inj.1 (ByteArray.ext hdata)

/-- What comes before the first quote is determined. -/
theorem quoted_unique {x y a b : List UInt8} (hx : 34 ∉ x) (hy : 34 ∉ y) (h : x ++ 34 :: a <+: y ++ 34 :: b) : x = y := by
  induction x generalizing y with
  | nil =>
    cases y with
    | nil => rfl
    | cons c y => simp_all
  | cons c x ih =>
    cases y with
    | nil => simp_all
    | cons c' y =>
      rw [List.cons_append, List.cons_append, List.cons_prefix_cons] at h
      rw [List.mem_cons, not_or] at hx hy
      rw [h.1, ih hx.2 hy.2 h.2]

variable {name rest : List UInt8}

theorem length_le_of_quote {tail : List UInt8} (hname : 34 ∉ name) {k : Nat}
    (h : 34 :: tail <+: (name ++ 34 :: rest).drop k) : name.length ≤ k := by
  by_contra hlt
  rw [List.drop_append_of_le_length (by omega), List.drop_eq_getElem_cons (by omega), List.cons_append,
    List.cons_prefix_cons] at h
  exact hname (h.1 ▸ List.getElem_mem _)

variable {spaced : Bool}

/-- The key does not begin again before the last quote of a field. -/
theorem field_apart {tail : List UInt8} (hname : PlainName name) {d : Nat} (hd : 1 ≤ d)
    (h : 34 :: ([109, 111, 100, 101, 108] ++ 34 :: tail) <+: (fieldBytes spaced name ++ rest).drop d) :
    (fieldBytes spaced name).length ≤ d + 1 := by
  -- the quotes are those around the key and the name: after the first the key would have to
  -- be followed by itself, and after the next the name would be the key
  have hkey : ¬ 34 :: ([109, 111, 100, 101, 108] ++ 34 :: tail) <+: 34 :: (name ++ 34 :: rest) := by
    rw [List.cons_prefix_cons]
    exact fun hp => hname.2 (quoted_unique (by decide) hname.1 hp.2).symm
  cases spaced with
  | false =>
    have htext : fieldBytes false name ++ rest =
        34 :: 109 :: 111 :: 100 :: 101 :: 108 :: 34 :: 58 :: 34 :: (name ++ 34 :: rest) := by simp [fieldBytes]
    have hlen : (fieldBytes false name).length = name.length + 10 := by simp [fieldBytes]
    rw [htext] at h
    rw [hlen]
    match d, hd with
    | 1, _ | 2, _ | 3, _ | 4, _ | 5, _ | 6, _ | 7, _ => simp [List.cons_prefix_cons] at h
    | 8, _ => exact absurd h hkey
    | k + 9, _ =>
      have hle := length_le_of_quote hname.1 h
      omega
  | true =>
    have htext : fieldBytes true name ++ rest =
        34 :: 109 :: 111 :: 100 :: 101 :: 108 :: 34 :: 58 :: 32 :: 34 :: (name ++ 34 :: rest) := by simp [fieldBytes]
    have hlen : (fieldBytes true name).length = name.length + 11 := by simp [fieldBytes]
    rw [htext] at h
    rw [hlen]
    match d, hd with
    | 1, _ | 2, _ | 3, _ | 4, _ | 5, _ | 6, _ | 7, _ | 8, _ => simp [List.cons_prefix_cons] at h
    | 9, _ => exact absurd h hkey
    | k + 10, _ =>
      have hle := length_le_of_quote hname.1 h
      omega

theorem fieldBytes_unique {spaced' : Bool} {name' : List UInt8} (hname : 34 ∉ name) (hname' : 34 ∉ name')
    (h : fieldBytes spaced' name' <+: fieldBytes spaced name ++ rest) : spaced = spaced' ∧ name = name' := by
  have hunique : 34 :: (name' ++ [34]) <+: 34 :: (name ++ 34 :: rest) → name = name' := by
    rw [List.cons_prefix_cons]
    exact fun hp => (quoted_unique hname' hname hp.2).symm
  cases spaced <;> cases spaced' <;> simp [fieldBytes] at h
  · exact ⟨rfl, hunique (by simpa using h)⟩
  · exact ⟨rfl, hunique (by simpa using h)⟩

theorem fields_apart : Apart 34 Field where
  shape := by
    rintro w ⟨spaced, name, _, rfl⟩
    exact ⟨_, rfl⟩
  apart := by
    rintro v w text d ⟨spaced, name, hname, rfl⟩ ⟨spaced', name', hname', rfl⟩ ⟨rest, rfl⟩ hw
    rcases Nat.eq_zero_or_pos d with rfl | hd
    · obtain ⟨rfl, rfl⟩ := fieldBytes_unique hname.1 hname'.1 hw
      exact .inl ⟨rfl, rfl⟩
    · have htext : fieldBytes spaced' name' = 34 :: ([109, 111, 100, 101, 108] ++
          34 :: (58 :: ((if spaced' then [32] else []) ++ 34 :: name') ++ [34])) := by simp [fieldBytes]
      rw [htext] at hw
      exact .inr (field_apart hname hd hw)

/-! ## The rewriting -/

theorem replaceAll_eq_replace {old : List UInt8} (hold : old ≠ []) (new body : List UInt8) :
    replaceAll old new body = replace old new body := by
  induction body using scan_induction hold with
  | nil => rw [replaceAll, replace_nil]
  | found rest ih =>
    rw [replace_found hold, ← ih]
    obtain ⟨b, bs, rfl⟩ := List.exists_cons_of_ne_nil hold
    rw [List.cons_append, replaceAll, if_pos (by simp)]
    simp
  | pass b bs hpass ih =>
    rw [replace_pass hpass, replaceAll, if_neg (by rwa [List.isPrefixOf_iff_prefix]), ih]

/-- The two forms of the field. -/
def fields (model : String) : List (List UInt8) := [modelField "\"model\":\"" model, modelField "\"model\": \"" model]

/-- A response body cut into chunks in which every field can be found: only one of the two
forms is used, no field begins with the last quote of another, and none lies across a cut. -/
structure Rewritable (targetModel : String) (chunks : List (List UInt8)) : Prop where
  uniform : ¬ ∀ f ∈ fields targetModel, f <:+: chunks.flatten
  separate : ∀ f ∈ fields targetModel, ¬ f ++ f.tail <:+: chunks.flatten
  whole : ∀ f ∈ fields targetModel, ¬ Straddles f chunks

/-- The same for names that may be part of a field: instead of fields that meet, there is none
in the text when the fields of the form that is used have the other name. -/
structure Replaceable (targetModel incomingModel : String) (chunks : List (List UInt8)) : Prop where
  uniform : ¬ ∀ f ∈ fields targetModel, f <:+: chunks.flatten
  clean : ∀ before ∈ ["\"model\":\"", "\"model\": \""], modelField before targetModel <:+: chunks.flatten →
    ∀ f ∈ fields targetModel, ¬ f <:+: replaceAll (modelField before targetModel) (modelField before incomingModel) chunks.flatten
  whole : ∀ f ∈ fields targetModel, ¬ Straddles f chunks

/-- There is nothing to rewrite. -/
abbrev Unchanged (targetModel incomingModel : String) : Prop :=
  targetModel = "" ∨ incomingModel = "" ∨ targetModel = incomingModel

/-- The fields of the two names share at most a quote. -/
def NamesApart (targetModel incomingModel : String) : Prop := Apart 34 fun f => f ∈ fields targetModel ++ fields incomingModel

section Rewriting

variable {targetModel incomingModel : String}

/-- The chunks rewritten one by one are the body rewritten, and no field is left in it. -/
def RewrittenRight (targetModel incomingModel : String) (chunks : List (List UInt8)) : Prop :=
  (chunks.map fun chunk => rewriteModelName chunk targetModel incomingModel).flatten =
      rewriteModelName chunks.flatten targetModel incomingModel ∧
    ∀ f ∈ fields targetModel, ¬ f <:+: rewriteModelName chunks.flatten targetModel incomingModel

theorem fields_eq (name : String) : fields name = [fieldBytes false (nameBytes name), fieldBytes true (nameBytes name)] := by
  rw [fields, modelField_compact, modelField_spaced]

theorem forall_fields {name : String} {P : List UInt8 → Prop} :
    (∀ f ∈ fields name, P f) ↔ P (fieldBytes false (nameBytes name)) ∧ P (fieldBytes true (nameBytes name)) := by
  rw [fields_eq]
  simp

theorem mem_fields (name : String) (spaced : Bool) : fieldBytes spaced (nameBytes name) ∈ fields name := by
  rw [fields_eq]
  cases spaced <;> simp

/-- Names without quotes that are not the key are apart. -/
theorem namesApart_of_plain (htarget : PlainName (nameBytes targetModel)) (hincoming : PlainName (nameBytes incomingModel)) :
    NamesApart targetModel incomingModel := by
  refine fields_apart.mono fun f hf => ?_
  rcases List.mem_append.1 hf with hf | hf
  · exact forall_fields.2 ⟨⟨false, _, htarget, rfl⟩, ⟨true, _, htarget, rfl⟩⟩ f hf
  · exact forall_fields.2 ⟨⟨false, _, hincoming, rfl⟩, ⟨true, _, hincoming, rfl⟩⟩ f hf

theorem fieldBytes_ne_nil (spaced : Bool) (name : List UInt8) : fieldBytes spaced name ≠ [] := by
  unfold fieldBytes
  nofun

theorem fieldBytes_inj {name' : List UInt8} (h : fieldBytes spaced name = fieldBytes spaced name') : name = name' := by
  cases spaced <;> simpa [fieldBytes] using h

theorem fieldBytes_ne (name name' : List UInt8) : fieldBytes false name ≠ fieldBytes true name' := by
  simp [fieldBytes]

/-- What is done to a body when there is something to rewrite. -/
abbrev rewritten (targetModel incomingModel : String) : List UInt8 → List UInt8 :=
  replaceEither (fieldBytes false (nameBytes targetModel)) (fieldBytes false (nameBytes incomingModel))
    (fieldBytes true (nameBytes targetModel)) (fieldBytes true (nameBytes incomingModel))

theorem bytes_ne (h : ¬ Unchanged targetModel incomingModel) (spaced : Bool) :
    fieldBytes spaced (nameBytes targetModel) ≠ fieldBytes spaced (nameBytes incomingModel) :=
  fun heq => h (.inr (.inr (nameBytes_injective (fieldBytes_inj heq))))

theorem rewriteModelName_eq (h : ¬ Unchanged targetModel incomingModel) (body : List UInt8) :
    rewriteModelName body targetModel incomingModel = rewritten targetModel incomingModel body := by
  have hself := replace_eq_self_iff (fieldBytes_ne_nil false (nameBytes targetModel)) (bytes_ne h false) body
  rw [rewriteModelName, if_neg h, modelField_compact, modelField_compact, modelField_spaced, modelField_spaced,
    replaceAll_eq_replace (fieldBytes_ne_nil _ _), replaceAll_eq_replace (fieldBytes_ne_nil _ _)]
  unfold rewritten replaceEither
  split
  · rename_i hfound
    rw [if_pos fun hsame => hself.1 hsame hfound]
  · rename_i hnot
    rw [if_neg (not_not.2 (hself.2 hnot))]

theorem rewritten_iff (h : ¬ Unchanged targetModel incomingModel) (hapart : NamesApart targetModel incomingModel)
    (chunks : List (List UInt8)) : RewrittenRight targetModel incomingModel chunks ↔ Rewritable targetModel chunks := by
  have htarget := fun spaced => List.mem_append_left (fields incomingModel) (mem_fields targetModel spaced)
  have hincoming := fun spaced => List.mem_append_right (fields targetModel) (mem_fields incomingModel spaced)
  have hiff := hapart.replaceEither_in_pieces_iff (htarget false) (hincoming false) (htarget true) (hincoming true)
    (bytes_ne h false) (bytes_ne h true) (fieldBytes_ne _ _) (fieldBytes_ne _ _) (fieldBytes_ne _ _).symm chunks
  unfold RewrittenRight
  simp only [rewriteModelName_eq h, forall_fields]
  rw [hiff]
  constructor
  · rintro ⟨huniform, hseparate, hwhole⟩
    exact ⟨by rwa [forall_fields], forall_fields.2 hseparate, forall_fields.2 hwhole⟩
  · rintro ⟨huniform, hseparate, hwhole⟩
    exact ⟨by rwa [forall_fields] at huniform, forall_fields.1 hseparate, forall_fields.1 hwhole⟩

theorem rewritten_of_replaceable (h : ¬ Unchanged targetModel incomingModel) {chunks : List (List UInt8)}
    (hr : Replaceable targetModel incomingModel chunks) : RewrittenRight targetModel incomingModel chunks := by
  obtain ⟨huniform, hclean, hwhole⟩ := hr
  rw [forall_fields] at huniform hwhole
  have hcompact := hclean _ List.mem_cons_self
  have hspaced := hclean _ (List.mem_cons_of_mem _ List.mem_cons_self)
  rw [modelField_compact, modelField_compact, replaceAll_eq_replace (fieldBytes_ne_nil _ _)] at hcompact
  rw [modelField_spaced, modelField_spaced, replaceAll_eq_replace (fieldBytes_ne_nil _ _)] at hspaced
  unfold RewrittenRight
  simp only [rewriteModelName_eq h]
  refine ⟨flatten_replaceEither (fieldBytes_ne_nil _ _) (fieldBytes_ne_nil _ _) huniform hwhole.1 hwhole.2, ?_⟩
  unfold rewritten replaceEither
  split
  · rename_i hfound
    exact hcompact hfound
  · rename_i hnot
    by_cases hfound : fieldBytes true (nameBytes targetModel) <:+: chunks.flatten
    · exact hspaced hfound
    · rw [replace_of_absent (fieldBytes_ne_nil _ _) hfound]
      exact forall_fields.2 ⟨hnot, hfound⟩

instance (name : List UInt8) : Decidable (PlainName name) := by unfold PlainName; infer_instance

end Rewriting

end InferenceGateway.Handlers
