import Mathlib
/-!
# Replacing words in a text

A scan from the left that replaces every occurrence of a word it meets, and goes on
after it. Words that begin and end with the same letter and share at most that letter
where they meet are easy to follow through such a scan: what is left of a word is what
met another one, and a text may be scanned in pieces if no word lies across a cut.
-/

namespace InferenceGateway.Lib

open List

variable {α : Type} [DecidableEq α] {old new text : List α}

/-- The text with every `old` replaced, from the left; for an `old` that is not empty. -/
def replace (old new : List α) : List α → List α
  | [] => []
  | b :: bs => if old <+: b :: bs then new ++ replace old new (bs.drop (old.length - 1)) else b :: replace old new bs
termination_by text => text.length
decreasing_by
  · simp only [length_drop, length_cons]; omega
  · simp

theorem replace_nil : replace old new [] = [] := by rw [replace]

theorem replace_found (hold : old ≠ []) (rest : List α) : replace old new (old ++ rest) = new ++ replace old new rest := by
  obtain ⟨b, bs, rfl⟩ := exists_cons_of_ne_nil hold
  rw [cons_append, replace, if_pos]
  · simp
  · exact ⟨rest, rfl⟩

theorem replace_pass {b : α} {bs : List α} (h : ¬ old <+: b :: bs) : replace old new (b :: bs) = b :: replace old new bs := by
  rw [replace, if_neg h]

/-- Induction along the scan. -/
theorem scan_induction (hold : old ≠ []) {P : List α → Prop} (nil : P []) (found : ∀ rest, P rest → P (old ++ rest))
    (pass : ∀ b bs, ¬ old <+: b :: bs → P bs → P (b :: bs)) (text : List α) : P text := by
  induction hlen : text.length using Nat.strong_induction_on generalizing text with
  | _ n ih =>
    cases text with
    | nil => exact nil
    | cons b bs =>
      by_cases h : old <+: b :: bs
      · obtain ⟨rest, hrest⟩ := h
        rw [← hrest] at hlen ⊢
        have hpos : 0 < old.length := length_pos_of_ne_nil hold
        exact found rest (ih rest.length (by simp only [length_append] at hlen; omega) rest rfl)
      · exact pass b bs h (ih bs.length (by simp only [length_cons] at hlen; omega) bs rfl)

theorem replace_of_absent (hold : old ≠ []) (h : ¬ old <:+: text) : replace old new text = text := by
  induction text using scan_induction hold with
  | nil => exact replace_nil
  | found rest _ => exact absurd (prefix_append old rest).isInfix h
  | pass b bs hb ih => rw [replace_pass hb, ih fun hbs => h (infix_cons hbs)]

/-- Each word that is found makes the same difference to the length. -/
theorem length_replace (new : List α) (hold : old ≠ []) (text : List α) : ∃ k, (replace old new text).length + k * old.length =
    text.length + k * new.length ∧ (old <:+: text → 0 < k) := by
  induction text using scan_induction hold with
  | nil => exact ⟨0, by simp [replace_nil], fun h => absurd (infix_nil.1 h) hold⟩
  | found rest ih =>
    obtain ⟨k, hk, -⟩ := ih
    refine ⟨k + 1, ?_, fun _ => k.succ_pos⟩
    rw [replace_found hold, length_append, length_append, Nat.succ_mul, Nat.succ_mul]
    omega
  | pass b bs hpass ih =>
    obtain ⟨k, hk, hpos⟩ := ih
    refine ⟨k, ?_, fun h => hpos ((infix_cons_iff.1 h).resolve_left hpass)⟩
    rw [replace_pass hpass, length_cons, length_cons]
    omega

theorem replace_eq_self_iff (hold : old ≠ []) (hne : old ≠ new) (text : List α) : replace old new text = text ↔ ¬ old <:+: text := by
  refine ⟨?_, replace_of_absent hold⟩
  induction text using scan_induction hold with
  | nil => exact fun _ h => hold (infix_nil.1 h)
  | found rest _ =>
    intro heq h
    rcases eq_or_ne old.length new.length with hlen | hlen
    · rw [replace_found hold] at heq
      exact hne (append_inj_left heq hlen.symm).symm
    · obtain ⟨k, hk, hpos⟩ := length_replace new hold (old ++ rest)
      rw [heq, Nat.add_right_inj] at hk
      exact hlen (Nat.eq_of_mul_eq_mul_left (hpos h) hk)
  | pass b bs hpass ih =>
    rw [replace_pass hpass, infix_cons_iff]
    rintro heq (hp | hinside)
    · exact hpass hp
    · exact ih (cons_inj_right b |>.1 heq) hinside

variable {word : List α}

omit [DecidableEq α] in
theorem prefix_append_cases {front back : List α} (h : word <+: front ++ back) :
    word <+: front ∨ ∃ last, word = front ++ last ∧ last <+: back := by
  obtain ⟨rest, hrest⟩ := h
  rcases append_eq_append_iff.1 hrest with ⟨as, rfl, _⟩ | ⟨last, hword, rfl⟩
  · exact .inl (prefix_append word as)
  · exact .inr ⟨last, hword, prefix_append last rest⟩

/-! ## Pieces -/

/-- A word begins in one piece and ends in a later one. -/
def Straddles (word : List α) (pieces : List (List α)) : Prop :=
  ∃ before piece after front back, pieces = before ++ piece :: after ∧ front ≠ [] ∧ back ≠ [] ∧
    word = front ++ back ∧ front <:+ piece ∧ back <+: after.flatten

omit [DecidableEq α] in
theorem not_straddles_nil (word : List α) : ¬ Straddles word [] := by
  rintro ⟨before, piece, after, front, back, hpieces, _⟩
  simp at hpieces

omit [DecidableEq α] in
theorem straddles_cons {piece : List α} {after : List (List α)} : Straddles word (piece :: after) ↔
      (∃ i < word.length, 0 < i ∧ word.take i <:+ piece ∧ word.drop i <+: after.flatten) ∨ Straddles word after := by
  constructor
  · rintro ⟨before, piece', after', front, back, hpieces, hf, hb, hword, hsuffix, hfront⟩
    cases before with
    | nil =>
      cases hpieces
      refine .inl ⟨front.length, ?_, length_pos_of_ne_nil hf, ?_, ?_⟩
      · rw [hword, length_append]
        exact Nat.lt_add_of_pos_right (length_pos_of_ne_nil hb)
      · rwa [hword, take_left]
      · rwa [hword, drop_left]
    | cons first before =>
      cases hpieces
      exact .inr ⟨before, piece', after', front, back, rfl, hf, hb, hword, hsuffix, hfront⟩
  · rintro (⟨i, hlt, hpos, hsuffix, hfront⟩ | ⟨before, piece', after', front, back, rfl, hrest⟩)
    · refine ⟨[], piece, after, word.take i, word.drop i, rfl, ?_, ?_, (take_append_drop i word).symm, hsuffix, hfront⟩
      · simpa using ⟨hpos.ne', length_pos_iff.1 (hpos.trans hlt)⟩
      · simpa using hlt
    · exact ⟨piece :: before, piece', after', front, back, rfl, hrest⟩

instance decidableStraddles (word : List α) : (pieces : List (List α)) → Decidable (Straddles word pieces)
  | [] => isFalse (not_straddles_nil word)
  | _ :: after =>
    have := decidableStraddles word after
    decidable_of_iff' _ straddles_cons

/-- A scan can stop at a cut that no word lies across. -/
theorem replace_append (hold : old ≠ []) {rest : List α}
    (h : ¬ ∃ front back, front ≠ [] ∧ back ≠ [] ∧ old = front ++ back ∧ front <:+ text ∧ back <+: rest) :
    replace old new (text ++ rest) = replace old new text ++ replace old new rest := by
  induction text using scan_induction hold with
  | nil => rw [replace_nil]; rfl
  | found text ih =>
    rw [append_assoc, replace_found hold, replace_found hold, append_assoc, ih]
    rintro ⟨front, back, hf, hb, hword, hsuffix, hfront⟩
    exact h ⟨front, back, hf, hb, hword, hsuffix.trans (suffix_append ..), hfront⟩
  | pass b bs hpass ih =>
    have hpass' : ¬ old <+: b :: (bs ++ rest) := by
      rw [← cons_append]
      intro hfront
      rcases prefix_append_cases hfront with hin | ⟨back, hword, hrest⟩
      · exact hpass hin
      · refine h ⟨b :: bs, back, cons_ne_nil b bs, ?_, hword, suffix_rfl, hrest⟩
        rintro rfl
        exact hpass (by rw [hword, append_nil])
    rw [cons_append, replace_pass hpass', replace_pass hpass, cons_append, ih]
    rintro ⟨front, back, hf, hb, hword, hsuffix, hfront⟩
    exact h ⟨front, back, hf, hb, hword, hsuffix.trans (suffix_cons ..), hfront⟩

variable {pieces : List (List α)}

theorem flatten_replace (hold : old ≠ []) (h : ¬ Straddles old pieces) :
    (pieces.map (replace old new)).flatten = replace old new pieces.flatten := by
  induction pieces with
  | nil => exact replace_nil.symm
  | cons piece after ih =>
    rw [map_cons, flatten_cons, flatten_cons, replace_append hold, ih]
    · rintro ⟨before, piece', after', front, back, rfl, hrest⟩
      exact h ⟨piece :: before, piece', after', front, back, rfl, hrest⟩
    · rintro ⟨front, back, hf, hb, hword, hsuffix, hfront⟩
      exact h ⟨[], piece, after, front, back, rfl, hf, hb, hword, hsuffix, hfront⟩

omit [DecidableEq α] in
theorem Straddles.isInfix (h : Straddles word pieces) : word <:+: pieces.flatten := by
  obtain ⟨before, piece, after, front, back, rfl, _, _, rfl, ⟨p, rfl⟩, ⟨q, hq⟩⟩ := h
  refine ⟨before.flatten ++ p, q, ?_⟩
  rw [flatten_append, flatten_cons, ← hq]
  simp only [append_assoc]

/-! ## One word, or else another -/

/-- The second word is only replaced where the first is not found. -/
def replaceEither (u n u' n' text : List α) : List α := if u <:+: text then replace u n text else replace u' n' text

section Either
variable {u n u' n' : List α}

omit [DecidableEq α] in
theorem not_infix_of_mem {piece : List α} (hnot : ¬ word <:+: pieces.flatten) (hpiece : piece ∈ pieces) : ¬ word <:+: piece :=
  fun hword => hnot (hword.trans (infix_of_mem_flatten hpiece))

/-- Where only the first word is, every piece is scanned for it. -/
theorem map_replaceEither_first (n n' : List α) (hu : u ≠ []) (hu' : u' ≠ []) (hnot : ¬ u' <:+: pieces.flatten) :
    pieces.map (replaceEither u n u' n') = pieces.map (replace u n) := by
  refine map_congr_left fun piece hpiece => ?_
  unfold replaceEither
  split
  · rfl
  · rename_i habsent
    rw [replace_of_absent hu' (not_infix_of_mem hnot hpiece), replace_of_absent hu habsent]

theorem map_replaceEither_second (n u' n' : List α) (hnot : ¬ u <:+: pieces.flatten) :
    pieces.map (replaceEither u n u' n') = pieces.map (replace u' n') :=
  map_congr_left fun _ hpiece => if_neg (not_infix_of_mem hnot hpiece)

/-- A text with only one of the words, and none of it across a cut, can be scanned in pieces. -/
theorem flatten_replaceEither (hu : u ≠ []) (hu' : u' ≠ []) (hone : ¬ (u <:+: pieces.flatten ∧ u' <:+: pieces.flatten))
    (hwhole : ¬ Straddles u pieces) (hwhole' : ¬ Straddles u' pieces) :
    (pieces.map (replaceEither u n u' n')).flatten = replaceEither u n u' n' pieces.flatten := by
  by_cases hfirst : u <:+: pieces.flatten
  · have hsecond : ¬ u' <:+: pieces.flatten := fun h => hone ⟨hfirst, h⟩
    rw [map_replaceEither_first _ _ hu hu' hsecond, flatten_replace hu hwhole, replaceEither, if_pos hfirst]
  · rw [map_replaceEither_second _ _ _ hfirst, flatten_replace hu' hwhole', replaceEither, if_neg hfirst]

end Either

/-! ## Words that share at most a letter -/

/-- The words begin and end with the letter `q`, and of two of them in one text the second
starts where the first does, and is the same, or at its last letter or later. -/
structure Apart (q : α) (Word : List α → Prop) : Prop where
  shape : ∀ w, Word w → ∃ mid, w = q :: mid ++ [q]
  apart : ∀ v w text d, Word v → Word w → v <+: text → w <+: text.drop d → d = 0 ∧ v = w ∨ v.length ≤ d + 1

namespace Apart

variable {q : α} {Word : List α → Prop} {u v w n : List α}

omit [DecidableEq α] in
theorem mono (h : Apart q Word) {Word' : List α → Prop} (hmore : ∀ w, Word' w → Word w) : Apart q Word' where
  shape w hw := h.shape w (hmore w hw)
  apart v w text d hv hw := h.apart v w text d (hmore v hv) (hmore w hw)

omit [DecidableEq α] in
theorem ne_nil (h : Apart q Word) (hw : Word w) : w ≠ [] := by
  obtain ⟨mid, rfl⟩ := h.shape w hw
  nofun

omit [DecidableEq α] in
theorem cons_tail (h : Apart q Word) (hw : Word w) : q :: w.tail = w := by
  obtain ⟨mid, rfl⟩ := h.shape w hw
  rfl

omit [DecidableEq α] in
theorem drop_last (h : Apart q Word) (hw : Word w) (rest : List α) : (w ++ rest).drop (w.length - 1) = q :: rest := by
  obtain ⟨mid, rfl⟩ := h.shape w hw
  have hlen : (q :: mid ++ [q]).length - 1 = (q :: mid).length := by simp
  rw [hlen, append_assoc, drop_left]
  rfl

omit [DecidableEq α] in
/-- Where another word begins, at most the last letter of a word is left. -/
theorem overlap (h : Apart q Word) (hv : Word v) (hw : Word w) {d : Nat} (hd : 1 ≤ d) {rest : List α}
    (hfront : v.drop d <+: w ++ rest) : v.drop d = [] ∨ v.drop d = [q] := by
  rcases Nat.lt_or_ge d v.length with hlt | hge
  · have hlen : (v.take d).length = d := by simp [hlt.le]
    have hfirst : v <+: v.take d ++ (w ++ rest) := by
      nth_rewrite 1 [← take_append_drop d v]
      exact (prefix_append_right_inj _).2 hfront
    have hsecond : w <+: (v.take d ++ (w ++ rest)).drop d := by
      rw [drop_append_of_le_length (by omega), drop_eq_nil_of_le (by omega)]
      exact prefix_append w rest
    rcases h.apart v w _ d hv hw hfirst hsecond with ⟨rfl, _⟩ | hend
    · omega
    · obtain ⟨mid, rfl⟩ := h.shape v hv
      right
      have hlast : d = (q :: mid).length := by
        simp only [length_append, length_cons, length_nil] at hend hlt ⊢
        omega
      rw [hlast, drop_left]
  · exact .inl (drop_eq_nil_of_le hge)

/-- The end of a word in front of a text is there before and after the scan. -/
theorem drop_prefix_replace (h : Apart q Word) (hu : Word u) (hn : Word n) (hv : Word v) {Z Z' : List α} (text : List α) :
    ∀ {d : Nat}, 1 ≤ d → (∀ e, 1 ≤ e → (v.drop e <+: Z ↔ v.drop e <+: Z')) →
      (v.drop d <+: text ++ Z ↔ v.drop d <+: replace u n text ++ Z') := by
  induction text using scan_induction (h.ne_nil hu) with
  | nil =>
    intro d hd hZ
    rw [replace_nil]
    exact hZ d hd
  | found rest _ =>
    intro d hd _
    rw [replace_found (h.ne_nil hu), append_assoc, append_assoc]
    have hstart : ∀ {w rest : List α}, Word w → (v.drop d = [] ∨ v.drop d = [q]) → v.drop d <+: w ++ rest := by
      intro w rest hw hend
      rcases hend with hend | hend
      · rw [hend]; exact nil_prefix
      · rw [hend, ← h.cons_tail hw]; exact ⟨w.tail ++ rest, rfl⟩
    exact ⟨fun hp => hstart hn (h.overlap hv hu hd hp), fun hp => hstart hu (h.overlap hv hn hd hp)⟩
  | pass b bs hpass ih =>
    intro d hd hZ
    rw [replace_pass hpass, cons_append, cons_append]
    cases hdrop : v.drop d with
    | nil => exact ⟨fun _ => nil_prefix, fun _ => nil_prefix⟩
    | cons c t =>
      have ht : v.drop (d + 1) = t := by rw [← tail_drop, hdrop]; rfl
      rw [cons_prefix_cons, cons_prefix_cons, ← ht, ih (by omega) hZ]

theorem drop_prefix_pieces (h : Apart q Word) (hu : Word u) (hn : Word n) (hv : Word v) (pieces : List (List α)) :
    ∀ {d : Nat}, 1 ≤ d → (v.drop d <+: pieces.flatten ↔ v.drop d <+: (pieces.map (replace u n)).flatten) := by
  induction pieces with
  | nil => exact fun _ => Iff.rfl
  | cons piece pieces ih => exact fun hd => h.drop_prefix_replace hu hn hv piece hd fun _ he => ih he

theorem cons_prefix_replace (h : Apart q Word) (hu : Word u) (hn : Word n) (hv : Word v) (b : α) (text : List α) :
    v <+: b :: text ↔ v <+: b :: replace u n text := by
  have hdrop : v.drop 1 <+: text ++ [] ↔ v.drop 1 <+: replace u n text ++ [] :=
    h.drop_prefix_replace hu hn hv text le_rfl fun _ _ => Iff.rfl
  rw [append_nil, append_nil, drop_one] at hdrop
  rw [← h.cons_tail hv, cons_prefix_cons, cons_prefix_cons, hdrop]

omit [DecidableEq α] in
/-- A word after another one shares its last letter with it, or it comes later. -/
theorem infix_append_iff (h : Apart q Word) (hn : Word n) (hv : Word v) (hne : v ≠ n) (text : List α) :
    v <:+: n ++ text ↔ v <:+: q :: text := by
  constructor
  · rintro ⟨front, back, heq⟩
    have hfirst : n <+: front ++ v ++ back := by rw [heq]; exact prefix_append n text
    have hsecond : v <+: (front ++ v ++ back).drop front.length := by
      rw [append_assoc, drop_left]
      exact prefix_append v back
    rcases h.apart n v _ _ hn hv hfirst hsecond with ⟨_, rfl⟩ | hend
    · exact absurd rfl hne
    · rw [heq] at hsecond
      refine hsecond.isInfix.trans ?_
      rw [← h.drop_last hn]
      exact (drop_suffix_drop_left _ (by omega)).isInfix
  · rw [← h.drop_last hn]
    exact fun hinside => hinside.trans (drop_suffix ..).isInfix

/-- Another word is there after the scan where it was before. -/
theorem infix_replace_iff (h : Apart q Word) (hu : Word u) (hn : Word n) (hv : Word v) (hvu : v ≠ u) (hvn : v ≠ n)
    (text : List α) : v <:+: replace u n text ↔ v <:+: text := by
  induction text using scan_induction (h.ne_nil hu) with
  | nil => rw [replace_nil]
  | found rest ih =>
    rw [replace_found (h.ne_nil hu), h.infix_append_iff hn hv hvn, h.infix_append_iff hu hv hvu, infix_cons_iff,
      infix_cons_iff, ih, ← h.cons_prefix_replace hu hn hv]
  | pass b bs hpass ih =>
    rw [replace_pass hpass, infix_cons_iff, infix_cons_iff, ih, ← h.cons_prefix_replace hu hn hv]

omit [DecidableEq α] in
/-- Two words that meet: the first one begins the text, or they come later. -/
theorem pair_infix_iff (h : Apart q Word) (hu : Word u) (rest : List α) :
    u ++ u.tail <:+: u ++ rest ↔ u.tail <+: rest ∨ u ++ u.tail <:+: rest := by
  constructor
  · rintro ⟨front, back, heq⟩
    have hpair : u ++ u.tail <+: (u ++ rest).drop front.length := by
      rw [← heq, append_assoc, drop_left]
      exact prefix_append ..
    have hword : u <+: (u ++ rest).drop front.length := (prefix_append u u.tail).trans hpair
    rcases h.apart u u _ _ hu hu (prefix_append u rest) hword with ⟨hzero, _⟩ | hend
    · rw [hzero, drop_zero, prefix_append_right_inj] at hpair
      exact .inl hpair
    · rcases Nat.lt_or_ge front.length u.length with hlt | hge
      · have hlast : front.length = u.length - 1 := by omega
        rw [hlast, h.drop_last hu, ← h.cons_tail hu, cons_prefix_cons] at hword
        exact .inl hword.2
      · rw [drop_append, drop_eq_nil_of_le hge, nil_append] at hpair
        exact .inr (hpair.isInfix.trans (drop_suffix ..).isInfix)
  · rintro (hfront | hinside)
    · exact ((prefix_append_right_inj u).2 hfront).isInfix
    · exact hinside.trans (suffix_append u rest).isInfix

/-- The word itself is left where it met another one. -/
theorem infix_replace_self_iff (h : Apart q Word) (hu : Word u) (hn : Word n) (hne : u ≠ n) (text : List α) :
    u <:+: replace u n text ↔ u ++ u.tail <:+: text := by
  induction text using scan_induction (h.ne_nil hu) with
  | nil =>
    have hnil := h.ne_nil hu
    simp [replace_nil, hnil]
  | found rest ih =>
    rw [replace_found (h.ne_nil hu), h.infix_append_iff hn hu hne, infix_cons_iff, ih,
      ← h.cons_prefix_replace hu hn hu, h.pair_infix_iff hu]
    refine or_congr_left ?_
    nth_rewrite 1 [← h.cons_tail hu]
    rw [cons_prefix_cons, and_iff_right rfl]
  | pass b bs hpass ih =>
    rw [replace_pass hpass, infix_cons_iff, infix_cons_iff, ih, ← h.cons_prefix_replace hu hn hu]
    refine or_congr_left ⟨fun hp => absurd hp hpass, fun hp => absurd ((prefix_append u u.tail).trans hp) hpass⟩

/-- The beginning of a word at the end of a text is left alone, unless the word meets another one. -/
theorem suffix_replace (h : Apart q Word) (hu : Word u) {front back : List α} (hword : u = front ++ back) (hf : front ≠ [])
    (hb : back ≠ []) (text : List α) : ∀ before, text = before ++ front → ¬ u ++ u.tail <:+: text ++ back →
      front <:+ replace u n text := by
  have hshort : front.length < u.length := by
    have hpos := length_pos_of_ne_nil hb
    rw [hword, length_append]
    omega
  induction text using scan_induction (h.ne_nil hu) with
  | nil =>
    intro before heq
    exact absurd (append_eq_nil_iff.1 heq.symm).2 hf
  | found rest ih =>
    intro before heq hapart
    have hsecond : u <+: (u ++ (rest ++ back)).drop before.length := by
      rw [← append_assoc, heq, append_assoc, drop_left, hword]
    rcases h.apart u u _ _ hu hu (prefix_append u (rest ++ back)) hsecond with ⟨hzero, _⟩ | hend
    · have hlen := congrArg List.length heq
      simp only [length_append, hzero] at hlen
      omega
    · rw [replace_found (h.ne_nil hu)]
      rcases append_eq_append_iff.1 heq with ⟨before', rfl, hrest⟩ | ⟨last, hlast, hfront⟩
      · refine (ih before' hrest fun hinside => hapart (hinside.trans ?_)).trans (suffix_append ..)
        rw [append_assoc]
        exact (suffix_append u _).isInfix
      · -- the word that was found ends in what should be the beginning of the next
        have hlen := congrArg List.length hlast
        rw [length_append] at hlen
        match last with
        | [] =>
          rw [nil_append] at hfront
          exact (ih [] hfront.symm fun hinside => hapart (hinside.trans
            (by rw [append_assoc]; exact (suffix_append u _).isInfix))).trans (suffix_append ..)
        | [c] =>
          have htail : u.tail = rest ++ back := by rw [hword, hfront]; rfl
          rw [htail, append_assoc] at hapart
          exact absurd infix_rfl hapart
        | _ :: _ :: _ =>
          simp only [length_cons] at hlen
          omega
  | pass b bs hpass ih =>
    intro before heq hapart
    cases before with
    | nil =>
      have hnot : ¬ u <:+: b :: bs := by
        intro hinside
        have hlen := hinside.length_le
        rw [heq, nil_append] at hlen
        omega
      rw [replace_of_absent (h.ne_nil hu) hnot, heq]
      exact suffix_rfl
    | cons c before =>
      rw [replace_pass hpass]
      refine (ih before (cons_inj_right b |>.1 (heq.trans ?_)) fun hinside => hapart ?_).trans (suffix_cons ..)
      · rw [(List.cons.inj heq).1]
        rfl
      · exact infix_cons hinside

theorem infix_of_straddles (h : Apart q Word) (hu : Word u) (hn : Word n)
    (hstraddles : Straddles u pieces) (hapart : ¬ u ++ u.tail <:+: pieces.flatten) :
    u <:+: (pieces.map (replace u n)).flatten := by
  obtain ⟨before, piece, after, front, back, rfl, hf, hb, hword, ⟨first, hfirst⟩, hfront⟩ := hstraddles
  have hdrop : u.drop front.length = back := by rw [hword, drop_left]
  have hback : back <+: (after.map (replace u n)).flatten := by
    rw [← hdrop] at hfront ⊢
    exact (h.drop_prefix_pieces hu hn hu after (length_pos_of_ne_nil hf)).1 hfront
  have hfront : front <:+ replace u n piece := by
    refine h.suffix_replace hu hword hf hb piece first hfirst.symm fun hinside => hapart (hinside.trans ?_)
    obtain ⟨rest, hrest⟩ := hfront
    rw [flatten_append, flatten_cons, ← hrest]
    exact ⟨before.flatten, rest, by simp only [append_assoc]⟩
  obtain ⟨p, hp⟩ := hfront
  obtain ⟨rest, hrest⟩ := hback
  rw [map_append, map_cons, flatten_append, flatten_cons, ← hp, ← hrest, hword]
  exact ⟨(before.map (replace (front ++ back) n)).flatten ++ p, rest, by simp only [append_assoc]⟩

/-- A text can be scanned in pieces, and nothing of the word is left, exactly if the word
never lies across a cut nor meets itself. -/
theorem replaced_in_pieces_iff (h : Apart q Word) (hu : Word u) (hn : Word n) (hne : u ≠ n) (pieces : List (List α)) :
    (pieces.map (replace u n)).flatten = replace u n pieces.flatten ∧ ¬ u <:+: replace u n pieces.flatten ↔
      ¬ Straddles u pieces ∧ ¬ u ++ u.tail <:+: pieces.flatten := by
  rw [h.infix_replace_self_iff hu hn hne]
  refine and_congr_left fun hapart => ⟨fun heq hstraddles => ?_, flatten_replace (h.ne_nil hu)⟩
  have hinside := h.infix_of_straddles hu hn hstraddles hapart
  rw [heq, h.infix_replace_self_iff hu hn hne] at hinside
  exact hapart hinside

/-! ### One word, or else another -/

/-- In pieces, and with nothing left of either word: only one of them is there, and that one
never lies across a cut nor meets itself. -/
theorem replaceEither_in_pieces_iff (h : Apart q Word) {u' n' : List α} (hu : Word u) (hn : Word n) (hu' : Word u')
    (hn' : Word n') (hne : u ≠ n) (hne' : u' ≠ n') (huu' : u ≠ u') (hun' : u ≠ n') (hu'n : u' ≠ n)
    (pieces : List (List α)) :
    ((pieces.map (replaceEither u n u' n')).flatten = replaceEither u n u' n' pieces.flatten ∧
        ¬ u <:+: replaceEither u n u' n' pieces.flatten ∧ ¬ u' <:+: replaceEither u n u' n' pieces.flatten) ↔
      ¬ (u <:+: pieces.flatten ∧ u' <:+: pieces.flatten) ∧
        (¬ u ++ u.tail <:+: pieces.flatten ∧ ¬ u' ++ u'.tail <:+: pieces.flatten) ∧
        ¬ Straddles u pieces ∧ ¬ Straddles u' pieces := by
  have hpair : ∀ {w : List α}, ¬ w <:+: pieces.flatten → ¬ w ++ w.tail <:+: pieces.flatten ∧ ¬ Straddles w pieces := by
    intro w hnot
    exact ⟨fun hp => hnot ((prefix_append w w.tail).isInfix.trans hp), fun hs => hnot hs.isInfix⟩
  by_cases hfirst : u <:+: pieces.flatten
  · by_cases hsecond : u' <:+: pieces.flatten
    · rw [replaceEither, if_pos hfirst, h.infix_replace_iff hu hn hu' huu'.symm hu'n]
      simp [hfirst, hsecond]
    · have hmap := map_replaceEither_first n n' (h.ne_nil hu) (h.ne_nil hu') hsecond
      have hiff := h.replaced_in_pieces_iff hu hn hne pieces
      rw [hmap, replaceEither, if_pos hfirst, h.infix_replace_iff hu hn hu' huu'.symm hu'n]
      simp only [hsecond, hpair hsecond, not_false_eq_true, and_true, and_false, true_and]
      rw [hiff, and_comm]
  · have hmap := map_replaceEither_second n u' n' hfirst
    have hiff := h.replaced_in_pieces_iff hu' hn' hne' pieces
    rw [hmap, replaceEither, if_neg hfirst, h.infix_replace_iff hu' hn' hu huu' hun']
    simp only [hfirst, hpair hfirst, not_false_eq_true, true_and, false_and]
    rw [hiff, and_comm]

end Apart

end InferenceGateway.Lib
