import R4Recovery.SdkPath
import R4Recovery.NameCodec
/-!
# SdkPathNormal — a path of the SDK is in lexical normal form

The pass over the input keeps the text of the components that stand, the newest first; a `..` takes one off and goes back to
the text before it.  What is returned is that text, within its limits, and normalising it once more changes nothing.
-/
namespace R4
namespace SdkPath

open Hive (isSeparator components)
open NameCodec (Char)
open PrefixCode (writeAll)

/-! ## The lexical form -/

/-- One component behind those that stand: `..` cancels the nearest one. -/
def cancel (kept : List Bytes) (segment : Bytes) : Option (List Bytes) :=
  if segment = [46] then some kept
  else if segment = [46, 46] then
    match kept with
    | [] => none
    | _ :: kept => some kept
  else some (segment :: kept)

/-- The components that stand, the newest first. -/
def standing (segments : List Bytes) : Option (List Bytes) := segments.foldlM cancel []

def rootText (input : Bytes) : Bytes := if isAbsolute input then [asciiUpper (input.headD 0), 58, 92] else []

/-- The text of a drive root, or of none, with components behind it. -/
def spelling (root : Bytes) (kept : List Bytes) : Bytes := root ++ [(92 : UInt8)].intercalate kept.reverse

def canonical (input : Bytes) (kept : List Bytes) : Bytes :=
  if rootText input = [] ∧ kept = [] then [46] else spelling (rootText input) kept

/-- Characters of the Basic Multilingual Plane, none of them reserved. -/
structure Chars (units : List Nat) (text : Bytes) : Prop where
  text : writeAll Fat.utf8OfUnit units = some text
  plane : ∀ u ∈ units, u < 2 ^ 16
  allowed : ∀ u ∈ units, Fat.unitAllowed u = true

/-- A component that may stand. -/
structure Good (segment : Bytes) : Prop where
  nonempty : segment ≠ []
  plain : ∀ b ∈ segment, isSeparator b = false
  noDot : segment ≠ [46]
  noDots : segment ≠ [46, 46]
  bytes : segment.length ≤ componentMax
  chars : ∃ units, Chars units segment ∧ units.length ≤ componentMaxChars

/-! ## Characters -/

theorem byte_allowed (b : UInt8) : b.toNat < 0x80 → isSeparator b = false → validateFileByte b = .ok () →
    Fat.unitAllowed b.toNat = true := by
  revert b
  exact byte_forall (by decide +kernel)

theorem high_allowed {u : Nat} (h : 0x80 ≤ u) : Fat.unitAllowed u = true := by
  have hlow : ∀ v ∈ [92, 47, 58, 42, 63, 34, 60, 62, 124], v < 0x80 := by decide
  unfold Fat.unitAllowed
  rw [decide_eq_true (by omega), bne_iff_ne.2 (by omega)]
  simp only [Bool.true_and, Bool.not_eq_true']
  rw [List.contains_eq_mem]
  exact decide_eq_false fun hmem => Nat.not_lt.2 h (hlow u hmem)

theorem validateFrom_step {b : UInt8} {rest : Bytes} {n m : Nat} (h : validateFrom (b :: rest) n = .ok m) :
    ∃ unit bs rest', Char unit bs ∧ b :: rest = bs ++ rest' ∧ validateFrom rest' (n + 1) = .ok m ∧
      (unit < 0x80 → validateFileByte b = .ok () ∧ unit = b.toNat) := by
  unfold validateFrom at h
  split at h
  · rename_i hlt
    obtain ⟨_, hbyte, h⟩ := Except.bind_ok.1 h
    exact ⟨b.toNat, [b], rest, .one (UInt8.lt_iff_toNat_lt.1 hlt), rfl, h, fun _ => ⟨hbyte, rfl⟩⟩
  · split at h
    · rename_i hlead
      have hb := (NameCodec.lead2_iff b).1 (beq_iff_eq.1 hlead)
      split at h
      · cases h
      · rename_i hlow
        have hlow : 0xC2 ≤ b.toNat := Nat.not_lt.1 (UInt8.lt_iff_toNat_lt.not.1 hlow)
        rcases rest with _ | ⟨b1, rest⟩
        · cases h
        · simp only at h
          split at h
          · cases h
          · rename_i hcont
            have hb1 := (NameCodec.cont_iff b1).1 (Decidable.of_not_not fun hne => hcont (bne_iff_ne.2 hne))
            exact ⟨_, [b, b1], rest, .two hlow hb.2 hb1.1 hb1.2, rfl, h, fun hlt => by omega⟩
    · split at h
      · rename_i hlead
        have hb := (NameCodec.lead3_iff b).1 (beq_iff_eq.1 hlead)
        rcases rest with _ | ⟨b1, _ | ⟨b2, rest⟩⟩
        · cases h
        · cases h
        · simp only at h
          split at h
          · cases h
          · rename_i hcont
            simp only [Bool.or_eq_true, bne_iff_ne, not_or, not_not] at hcont
            have hb1 := (NameCodec.cont_iff b1).1 hcont.1
            have hb2 := (NameCodec.cont_iff b2).1 hcont.2
            split at h
            · cases h
            · rename_i hover
              split at h
              · cases h
              · rename_i hsurrogate
                simp only [Bool.and_eq_true, beq_iff_eq, decide_eq_true_eq, not_and] at hover hsurrogate
                have h7 : b.toNat = 0xE0 → 0xA0 ≤ b1.toNat := fun he =>
                  Nat.not_lt.1 (UInt8.lt_iff_toNat_lt.not.1 (hover (UInt8.toNat_inj.1 he)))
                have h8 : b.toNat = 0xED → b1.toNat < 0xA0 := fun he =>
                  Nat.not_le.1 (UInt8.le_iff_toNat_le.not.1 (hsurrogate (UInt8.toNat_inj.1 he)))
                exact ⟨_, [b, b1, b2], rest, .three hb.1 hb.2 hb1.1 hb1.2 hb2.1 hb2.2 h7 h8, rfl, h, fun hlt => by
                  by_cases he : b.toNat = 0xE0
                  · have := h7 he
                    omega
                  · omega⟩
      · cases h

theorem char_plane {u : Nat} {bs : Bytes} (h : Char u bs) : u < 2 ^ 16 := by
  cases h <;> omega

theorem Chars.cons {u : Nat} {us : List Nat} {bs text : Bytes} (h : Char u bs) (hallowed : Fat.unitAllowed u = true)
    (hs : Chars us text) : Chars (u :: us) (bs ++ text) := by
  refine ⟨?_, fun v hv => ?_, fun v hv => ?_⟩
  · rw [writeAll, NameCodec.utf8OfUnit_char h]
    dsimp only
    rw [hs.text, Option.map_some]
  · rcases List.mem_cons.1 hv with rfl | hv
    · exact char_plane h
    · exact hs.plane v hv
  · rcases List.mem_cons.1 hv with rfl | hv
    · exact hallowed
    · exact hs.allowed v hv

/-- **What is valid is a text of that many characters**, none of them reserved. -/
theorem validateFrom_chars : ∀ (text : Bytes) {n m : Nat}, (∀ b ∈ text, isSeparator b = false) →
    validateFrom text n = .ok m →
    ∃ units, Chars units text ∧ m = n + units.length
  | [], n, m, _, h => by
    cases h
    exact ⟨[], ⟨rfl, nofun, nofun⟩, rfl⟩
  | b :: rest, n, m, hplain, h => by
    obtain ⟨unit, bs, rest', hchar, heq, hrest, hbyte⟩ := validateFrom_step h
    have hshort : rest'.length < (b :: rest).length := by
      have hpos := List.length_pos_iff.2 hchar.ne_nil
      rw [heq, List.length_append]
      omega
    have hplain' : ∀ c ∈ rest', isSeparator c = false := fun c hc => hplain c (by rw [heq]; exact List.mem_append_right _ hc)
    have hallowed : Fat.unitAllowed unit = true := by
      rcases Nat.lt_or_ge unit 0x80 with hlow | hhigh
      · obtain ⟨hok, rfl⟩ := hbyte hlow
        exact byte_allowed b hlow (hplain b List.mem_cons_self) hok
      · exact high_allowed hhigh
    obtain ⟨units, hunits, rfl⟩ := validateFrom_chars rest' hplain' hrest
    rw [heq]
    exact ⟨unit :: units, hunits.cons hchar hallowed, by rw [List.length_cons]; omega⟩
termination_by text => text.length
decreasing_by exact hshort

/-! ## The texts of the pass -/

/-- The separator in front of a component. -/
def between (kept : List Bytes) : Bytes := if kept = [] then [] else [92]

/-- The text of the components that stand. -/
def text (root : Bytes) : List Bytes → Bytes
  | [] => root
  | c :: kept => text root kept ++ between kept ++ c

def charCount (segment : Bytes) : Nat :=
  match validateFileSegment segment with
  | .ok n => n
  | .error _ => 0

def textChars (root : Bytes) : List Bytes → Nat
  | [] => root.length
  | c :: kept => textChars root kept + (between kept).length + charCount c

/-- The positions in front of the components that stand. -/
def marks (root : Bytes) : List Bytes → List (Nat × Nat)
  | [] => []
  | _ :: kept => ((text root kept).length, textChars root kept) :: marks root kept

theorem intercalate_snoc (sep c : Bytes) : ∀ {l : List Bytes}, l ≠ [] → sep.intercalate (l ++ [c])
    = sep.intercalate l ++ sep ++ c
  | [a], _ => by
    rw [List.singleton_append, List.intercalate_cons_cons, List.intercalate_singleton, List.intercalate_singleton]
  | a :: b :: l, _ => by
    have hne : b :: l ≠ [] := List.cons_ne_nil _ _
    rw [List.cons_append, List.intercalate_cons_of_ne_nil (List.append_ne_nil_of_left_ne_nil hne _),
      intercalate_snoc sep c hne, List.intercalate_cons_of_ne_nil hne]
    simp only [List.append_assoc]

theorem text_eq (root : Bytes) : ∀ kept : List Bytes, text root kept = spelling root kept
  | [] => (List.append_nil root).symm
  | [c] => by
    rw [text, text, between, if_pos rfl, spelling, List.reverse_singleton, List.intercalate_singleton, List.append_nil]
  | c :: d :: kept => by
    have hne : (d :: kept).reverse ≠ [] := fun h => absurd (List.reverse_eq_nil_iff.1 h) (List.cons_ne_nil _ _)
    rw [text, text_eq root (d :: kept), spelling, spelling, between, if_neg (List.cons_ne_nil _ _),
      List.reverse_cons (a := c),
      intercalate_snoc [92] c hne]
    simp only [List.append_assoc]

/-- What is checked of a component by itself. -/
structure Passes (segment : Bytes) : Prop where
  bytes : segment.length ≤ componentMax
  valid : validateFileSegment segment = .ok (charCount segment)
  chars : charCount segment ≤ componentMaxChars

/-- A component of the input. -/
structure Piece (segment : Bytes) : Prop where
  nonempty : segment ≠ []
  plain : ∀ b ∈ segment, isSeparator b = false

theorem Piece.chars {segment : Bytes} (h : Piece segment) (hpasses : Passes segment) :
    ∃ units, Chars units segment ∧ charCount segment = units.length := by
  obtain ⟨units, hunits, hcount⟩ := validateFrom_chars segment h.plain hpasses.valid
  exact ⟨units, hunits, by omega⟩

theorem Piece.count_pos {segment : Bytes} (h : Piece segment) (hpasses : Passes segment) : 0 < charCount segment := by
  obtain ⟨units, hunits, hcount⟩ := h.chars hpasses
  rw [hcount, List.length_pos_iff]
  rintro rfl
  exact h.nonempty (Option.some.inj hunits.text).symm

/-- A component that stands. -/
structure Stands (segment : Bytes) : Prop where
  piece : Piece segment
  passes : Passes segment
  noDot : segment ≠ [46]
  noDots : segment ≠ [46, 46]

/-- After some components: the state holds their text and the positions in it. -/
structure Holds (root : Bytes) (st : State) (kept : List Bytes) : Prop where
  length : st.out.length = filePathMax + 1
  pos : st.pos = (text root kept).length
  out : st.out.take st.pos = text root kept
  chars : st.chars = textChars root kept
  starts : st.starts = marks root kept
  bytes : st.pos ≤ filePathMax
  fits : st.chars ≤ filePathMaxChars
  stands : ∀ c ∈ kept, Stands c

/-- The root of an absolute path takes three bytes. -/
def Rooted (absolute : Bool) (root : Bytes) : Prop := root.length = if absolute then 3 else 0

theorem take_eq_slice (a : Bytes) (n : Nat) : a.take n = slice a 0 n := by
  rw [slice, List.drop_zero]

theorem take_put {b v : Bytes} {off : Nat} (h : off + v.length ≤ b.length) :
    (put b off v).take (off + v.length) = b.take off ++ v := by
  rw [take_eq_slice, slice_append, slice_put_off (.inl (by omega)), Nat.zero_add, slice_put rfl h, take_eq_slice]

section Pass

variable {root : Bytes} {absolute : Bool} {st : State} {kept : List Bytes} {segment : Bytes}

theorem root_le_text : ∀ kept : List Bytes, root.length ≤ (text root kept).length
  | [] => Nat.le_refl _
  | c :: kept => by
    have ih := root_le_text kept
    rw [text, List.length_append, List.length_append]
    omega

theorem root_le_chars : ∀ kept : List Bytes, root.length ≤ textChars root kept
  | [] => Nat.le_refl _
  | c :: kept => by
    have ih := root_le_chars kept
    rw [textChars]
    omega

theorem root_lt_text (hstands : ∀ c ∈ kept, Stands c) : root.length < (text root kept).length ↔ kept ≠ [] := by
  cases kept with
  | nil => exact ⟨fun h => absurd h (Nat.lt_irrefl _), fun h => absurd rfl h⟩
  | cons c kept =>
    have hle : root.length ≤ (text root kept).length := root_le_text kept
    have hpos := List.length_pos_iff.2 (hstands c List.mem_cons_self).piece.nonempty
    refine ⟨fun _ => List.cons_ne_nil _ _, fun _ => ?_⟩
    rw [text, List.length_append, List.length_append]
    omega

/-- **Every component takes two characters but the first**, so the entries for rolling back do not run out. -/
theorem length_le_chars : ∀ {kept : List Bytes}, (∀ c ∈ kept, Stands c) → 2 * kept.length ≤ textChars root kept + 1
  | [], _ => Nat.zero_le _
  | c :: kept, h => by
    have ih := length_le_chars fun d hd => h d (List.mem_cons_of_mem c hd)
    have hc := h c List.mem_cons_self
    have hpos := hc.piece.count_pos hc.passes
    rw [textChars, List.length_cons, between]
    cases kept with
    | nil =>
      rw [if_pos rfl]
      simp only [List.length_nil]
      omega
    | cons d kept =>
      rw [if_neg (List.cons_ne_nil _ _)]
      simp only [List.length_cons, List.length_nil] at ih ⊢
      omega

theorem length_marks (root : Bytes) : ∀ kept : List Bytes, (marks root kept).length = kept.length
  | [] => rfl
  | _ :: kept => congrArg (· + 1) (length_marks root kept)

theorem Holds.entries (h : Holds root st kept) : st.starts.length < pathRollbackEntries := by
  have hle : 2 * kept.length ≤ textChars root kept + 1 := length_le_chars h.stands
  have hfits := h.fits
  rw [h.chars] at hfits
  rw [h.starts, length_marks]
  unfold filePathMaxChars at hfits
  unfold pathRollbackEntries
  omega

/-- **`..` takes the newest component off.** -/
theorem goBack_holds (hroot : Rooted absolute root) {c : Bytes} (h : Holds root st (c :: kept)) :
    ∃ st', goBack absolute st = .ok st' ∧ Holds root st' kept := by
  have hstarts := h.starts
  have hlen : root.length ≤ (text root kept).length := root_le_text kept
  have hchars : root.length ≤ textChars root kept := root_le_chars kept
  have hpos := h.pos
  have hcount := h.chars
  have hbytes := h.bytes
  have hfits := h.fits
  rw [text, List.length_append, List.length_append] at hpos
  rw [textChars] at hcount
  rw [marks] at hstarts
  unfold Rooted at hroot
  have h1 : (if absolute && ((text root kept).length == 2) then 3 else (text root kept).length)
      = (text root kept).length := by
    cases absolute
    · rfl
    · rw [if_pos rfl] at hroot
      rw [if_neg]
      simp only [Bool.true_and, beq_iff_eq]
      omega
  have h2 : (if absolute && decide (textChars root kept < 3) then 3 else textChars root kept) = textChars root kept := by
    cases absolute
    · rfl
    · rw [if_pos rfl] at hroot
      rw [if_neg]
      simp only [Bool.true_and, decide_eq_true_eq]
      omega
  refine ⟨{ st with pos := (text root kept).length, chars := textChars root kept, starts := marks root kept }, ?_,
    h.length, rfl, ?_, rfl, rfl, by simp only; omega, by simp only; omega, fun d hd => h.stands d (List.mem_cons_of_mem c hd)⟩
  · unfold goBack
    rw [hstarts]
    simp only [h1, h2]
  · have hout := congrArg (List.take (text root kept).length) h.out
    rw [List.take_take, Nat.min_eq_left (by omega), text, List.append_assoc, List.take_left] at hout
    exact hout

/-! ### Appending -/

theorem separate_if (hroot : Rooted absolute root) (h : Holds root st kept) :
    ((absolute && decide (st.pos > 3)) || (!absolute && decide (st.pos > 0))) = decide (kept ≠ []) := by
  have hlt : root.length < (text root kept).length ↔ kept ≠ [] := root_lt_text h.stands
  unfold Rooted at hroot
  rw [h.pos]
  cases absolute
  · rw [if_neg Bool.false_ne_true] at hroot
    rw [hroot] at hlt
    exact decide_eq_decide.2 hlt
  · rw [if_pos rfl] at hroot
    rw [hroot] at hlt
    simp only [Bool.true_and, Bool.not_true, Bool.false_and, Bool.or_false]
    exact decide_eq_decide.2 hlt

/-- Behind the separator. -/
structure Separated (root : Bytes) (st : State) (kept : List Bytes) (st' : State) : Prop where
  length : st'.out.length = filePathMax + 1
  pos : st'.pos = (text root kept ++ between kept).length
  out : st'.out.take st'.pos = text root kept ++ between kept
  chars : st'.chars = textChars root kept + (between kept).length
  starts : st'.starts = st.starts
  bytes : st'.pos ≤ filePathMax

theorem separate_spec (hroot : Rooted absolute root) (h : Holds root st kept) :
    (∃ st', separate absolute st = .ok st' ∧ Separated root st kept st') ∨
      (separate absolute st = .error .tooLong ∧ filePathMax < (text root kept ++ between kept).length) := by
  unfold separate
  rw [separate_if hroot h, between]
  by_cases hk : kept = []
  · rw [if_neg (by simp [hk]), if_pos hk, List.append_nil]
    refine .inl ⟨st, rfl, h.length, ?_, ?_, ?_, rfl, h.bytes⟩
    · rw [between, if_pos hk, List.append_nil, h.pos]
    · rw [between, if_pos hk, List.append_nil, h.out]
    · rw [between, if_pos hk, h.chars]
      rfl
  · rw [if_pos (decide_eq_true hk), if_neg hk, List.length_append, List.length_singleton]
    by_cases hfull : st.pos ≥ filePathMax
    · rw [if_pos hfull]
      rw [h.pos] at hfull
      exact .inr ⟨rfl, Nat.lt_succ_of_le hfull⟩
    · rw [if_neg hfull]
      refine .inl ⟨_, rfl, (length_put ..).trans h.length, ?_, ?_, ?_, rfl, by simp only; omega⟩
      · rw [between, if_neg hk, List.length_append, List.length_singleton, ← h.pos]
      · rw [between, if_neg hk, ← h.out]
        have hin : st.pos + [(92 : UInt8)].length ≤ st.out.length := by
          rw [h.length, List.length_singleton]
          omega
        exact take_put hin
      · rw [between, if_neg hk, h.chars]
        rfl

theorem reject_ok {bad : Bool} {e : Error} {u : Unit} (h : reject bad e = .ok u) : bad = false := by
  unfold reject at h
  split at h
  · cases h
  · exact Bool.eq_false_iff.2 ‹_›

/-- **A component that is appended stands.** -/
theorem append_holds (hroot : Rooted absolute root) (h : Holds root st kept) (hpiece : Piece segment) (hdot : segment ≠ [46])
    (hdots : segment ≠ [46, 46]) {st' : State} (happend : append absolute st segment = .ok st') :
    Holds root st' (segment :: kept) := by
  obtain ⟨_, hbytes, happend⟩ := Except.bind_ok.1 happend
  obtain ⟨n, hvalid, happend⟩ := Except.bind_ok.1 happend
  obtain ⟨_, hchars, happend⟩ := Except.bind_ok.1 happend
  obtain ⟨_, -, happend⟩ := Except.bind_ok.1 happend
  obtain ⟨st1, hseparate, happend⟩ := Except.bind_ok.1 happend
  obtain ⟨_, hroom, happend⟩ := Except.bind_ok.1 happend
  obtain ⟨_, hfits, happend⟩ := Except.bind_ok.1 happend
  have hbytes := of_decide_eq_false (reject_ok hbytes)
  have hchars := of_decide_eq_false (reject_ok hchars)
  have hroom := of_decide_eq_false (reject_ok hroom)
  have hfits := of_decide_eq_false (reject_ok hfits)
  have hcount : charCount segment = n := by
    rw [charCount, hvalid]
  obtain ⟨st2, hok, hsep⟩ | ⟨hbad, -⟩ := separate_spec hroot h
  · rw [hseparate] at hok
    cases hok
    cases happend
    have hin := hsep.bytes
    refine ⟨(length_put ..).trans hsep.length, ?_, ?_, ?_, ?_, by simp only; omega, Nat.le_of_not_lt hfits, fun c hc => ?_⟩
    · rw [text, List.length_append, ← hsep.pos]
    · rw [text, ← hsep.out]
      exact take_put (by rw [hsep.length]; omega)
    · rw [textChars, ← hsep.chars, hcount]
    · rw [marks, hsep.starts, h.starts, ← h.pos, ← h.chars]
    · rcases List.mem_cons.1 hc with rfl | hc
      · exact ⟨hpiece, ⟨Nat.le_of_not_lt hbytes, hvalid.trans (congrArg Except.ok hcount.symm),
          hcount ▸ Nat.le_of_not_lt hchars⟩,
          hdot, hdots⟩
      · exact h.stands c hc
  · rw [hseparate] at hbad
    cases hbad

/-- **A component that may stand is appended** as long as the limits are kept. -/
theorem append_fits (hroot : Rooted absolute root) (h : Holds root st kept) (hstands : Stands segment)
    (hroom : (text root (segment :: kept)).length ≤ filePathMax)
    (hfits : textChars root (segment :: kept) ≤ filePathMaxChars) :
    ∃ st', append absolute st segment = .ok st' := by
  have hrej : ∀ {p : Prop} [Decidable p] {e : Error}, ¬ p → reject (decide p) e = .ok () := by
    intro p _ e hp
    rw [reject, decide_eq_false hp]
    rfl
  have hentries := h.entries
  have hpasses := hstands.passes
  rw [text, List.length_append] at hroom
  rw [textChars] at hfits
  obtain ⟨st1, hok, hsep⟩ | ⟨-, hbad⟩ := separate_spec hroot h
  · have hpos := hsep.pos
    unfold append
    rw [hrej (Nat.not_lt.2 hpasses.bytes), hpasses.valid]
    simp only [bind, Except.bind]
    rw [hrej (Nat.not_lt.2 hpasses.chars), hrej (Nat.not_le.2 hentries), hok]
    simp only
    rw [hrej (by omega), hrej (by rw [hsep.chars]; omega)]
    exact ⟨_, rfl⟩
  · omega

/-! ### All components -/

/-- **One component**: `cancel` says what stands after it. -/
theorem component_holds (hroot : Rooted absolute root) (h : Holds root st kept) (hpiece : Piece segment) {st' : State}
    (hcomponent : component absolute st segment = .ok st') : ∃ kept', cancel kept segment = some kept' ∧
    Holds root st' kept' := by
  unfold component at hcomponent
  unfold cancel
  by_cases hdot : segment = [46]
  · rw [if_pos (beq_iff_eq.2 hdot)] at hcomponent
    cases hcomponent
    exact ⟨kept, if_pos hdot, h⟩
  · rw [if_neg (fun hb => hdot (beq_iff_eq.1 hb))] at hcomponent
    rw [if_neg hdot]
    by_cases hdots : segment = [46, 46]
    · rw [if_pos (beq_iff_eq.2 hdots)] at hcomponent
      rw [if_pos hdots]
      cases kept with
      | nil =>
        have hstarts := h.starts
        unfold goBack at hcomponent
        rw [hstarts] at hcomponent
        cases hcomponent
      | cons c kept =>
        obtain ⟨st1, hback, hst1⟩ := goBack_holds hroot h
        rw [hback] at hcomponent
        cases hcomponent
        exact ⟨kept, rfl, hst1⟩
    · rw [if_neg (fun hb => hdots (beq_iff_eq.1 hb))] at hcomponent
      rw [if_neg hdots]
      exact ⟨_, rfl, append_holds hroot h hpiece hdot hdots hcomponent⟩

theorem component_root (h : Holds root st []) : component absolute st [46, 46] = .error .rootTraversal := by
  unfold component goBack
  rw [if_neg (by decide), if_pos (by decide), h.starts]
  rfl

theorem components_hold (hroot : Rooted absolute root) : ∀ {segments : List Bytes} {st st' : State} {kept : List Bytes},
    Holds root st kept → (∀ c ∈ segments, Piece c) → segments.foldlM (component absolute) st = .ok st' →
    ∃ kept', segments.foldlM cancel kept = some kept' ∧ Holds root st' kept'
  | [], st, st', kept, h, _, hfold => by
    cases hfold
    exact ⟨kept, rfl, h⟩
  | c :: segments, st, st', kept, h, hpieces, hfold => by
    rw [List.foldlM_cons] at hfold ⊢
    obtain ⟨st1, hone, hfold⟩ := Except.bind_ok.1 hfold
    obtain ⟨kept1, hcancel, h1⟩ := component_holds hroot h (hpieces c List.mem_cons_self) hone
    obtain ⟨kept', hrest, h'⟩ := components_hold hroot h1 (fun d hd => hpieces d (List.mem_cons_of_mem c hd)) hfold
    exact ⟨kept', by rw [hcancel]; exact hrest, h'⟩

/-- **Components that stand are taken as they are.** -/
theorem components_stand (hroot : Rooted absolute root) (h : Holds root st []) : ∀ {kept : List Bytes},
    (∀ c ∈ kept, Stands c) →
    (text root kept).length ≤ filePathMax → textChars root kept ≤ filePathMaxChars →
    ∃ st', kept.reverse.foldlM (component absolute) st = .ok st' ∧ Holds root st' kept
  | [], _, _, _ => ⟨st, rfl, h⟩
  | c :: kept, hstands, hroom, hfits => by
    have hc := hstands c List.mem_cons_self
    obtain ⟨st1, hrun, h1⟩ := components_stand hroot h (fun d hd => hstands d (List.mem_cons_of_mem c hd))
      (by rw [text, List.length_append, List.length_append] at hroom; omega) (by rw [textChars] at hfits; omega)
    obtain ⟨st', happend⟩ := append_fits hroot h1 hc hroom hfits
    refine ⟨st', ?_, append_holds hroot h1 hc.piece hc.noDot hc.noDots happend⟩
    rw [List.reverse_cons, List.foldlM_append, hrun]
    show (List.foldlM (component absolute) st1 [c] : Except Error State) = _
    rw [List.foldlM_cons, component, if_neg (fun hb => hc.noDot (beq_iff_eq.1 hb)),
      if_neg (fun hb => hc.noDots (beq_iff_eq.1 hb)), happend]
    rfl

end Pass

/-! ## The components of the input -/

theorem components_first {rest tail : Bytes} {c : UInt8} (h : rest.dropWhile isSeparator = c :: tail) :
    Piece ((c :: tail).takeWhile (fun b => !isSeparator b)) ∧
      components rest = (c :: tail).takeWhile (fun b => !isSeparator b) ::
        components ((c :: tail).dropWhile (fun b => !isSeparator b)) := by
  have hpiece : Piece ((c :: tail).takeWhile (fun b => !isSeparator b)) := by
    refine ⟨?_, fun b hb => ?_⟩
    · rw [List.takeWhile_cons_of_pos (by rw [head_dropWhile h]; rfl)]
      exact List.cons_ne_nil _ _
    · have := List.mem_takeWhile_imp hb
      simpa using this
  refine ⟨hpiece, ?_⟩
  rw [← Hive.components_dropWhile, h]
  conv_lhs => rw [← List.takeWhile_append_dropWhile (p := fun b => !isSeparator b) (l := c :: tail)]
  refine Hive.components_piece hpiece.nonempty hpiece.plain fun b hb => ?_
  obtain ⟨tail', htail⟩ := List.head?_eq_some_iff.1 hb
  have := head_dropWhile htail
  simpa using this

theorem components_none {rest : Bytes} (h : rest.dropWhile isSeparator = []) : components rest = [] := by
  rw [← Hive.components_dropWhile, h]
  rfl

theorem components_pieces (rest : Bytes) : ∀ c ∈ components rest, Piece c := by
  cases h : rest.dropWhile isSeparator with
  | nil =>
    rw [components_none h]
    nofun
  | cons c tail =>
    obtain ⟨hpiece, heq⟩ := components_first h
    have hshort := pass_shorter h
    rw [heq]
    intro d hd
    rcases List.mem_cons.1 hd with rfl | hd
    · exact hpiece
    · exact components_pieces _ d hd
termination_by rest.length
decreasing_by exact hshort

/-- **The pass takes the components** between the separators. -/
theorem pass_eq (absolute : Bool) (rest : Bytes) (st : State) :
    pass absolute rest st = (components rest).foldlM (component absolute) st := by
  rw [pass]
  split
  · rename_i hrest
    rw [components_none hrest]
    rfl
  · rename_i c tail hrest
    have hshort := pass_shorter hrest
    rw [(components_first hrest).2, List.foldlM_cons]
    congr 1
    funext st1
    exact pass_eq absolute _ st1
termination_by rest.length
decreasing_by exact hshort

/-! ## The whole path -/

section Whole

variable {input : Bytes} {required : Option Bool} {storage : Storage} {kept : List Bytes}

theorem rooted (input : Bytes) : Rooted (isAbsolute input) (rootText input) := by
  unfold Rooted rootText
  cases isAbsolute input <;> rfl

theorem start_holds (input : Bytes) (storage : Storage) : Holds (rootText input) (start input storage.bytes) [] := by
  have hsize := storage.size
  unfold start rootText
  split
  · refine ⟨(length_put ..).trans hsize, rfl, ?_, rfl, rfl, Nat.le_of_ble_eq_true rfl, Nat.le_of_ble_eq_true rfl, nofun⟩
    have hin : 0 + [asciiUpper (input.headD 0), 58, 92].length ≤ storage.bytes.length := by
      rw [hsize]
      exact Nat.le_of_ble_eq_true rfl
    exact (take_put hin).trans (List.nil_append _)
  · exact ⟨hsize, rfl, rfl, rfl, rfl, Nat.zero_le _, Nat.zero_le _, nofun⟩

theorem text_nil {root : Bytes} (hstands : ∀ c ∈ kept, Stands c) :
    (text root kept).length = 0 ↔ root = [] ∧ kept = [] := by
  have hlt : root.length < (text root kept).length ↔ kept ≠ [] := root_lt_text hstands
  constructor
  · intro h
    have hroot : root.length ≤ (text root kept).length := root_le_text kept
    refine ⟨List.eq_nil_of_length_eq_zero (by omega), ?_⟩
    by_contra hne
    have := hlt.2 hne
    omega
  · rintro ⟨rfl, rfl⟩
    rfl

theorem rootText_nil (input : Bytes) : rootText input = [] ↔ isAbsolute input = false := by
  unfold rootText
  cases isAbsolute input <;> simp

theorem finish_eq {st : State} (h : Holds (rootText input) st kept) :
    ∃ st', (if !isAbsolute input && st.pos == 0 then { st with out := put st.out 0 [46], pos := 1 } else st) = st' ∧
      (put st'.out st'.pos [0]).take st'.pos = canonical input kept := by
  have hnil : (text (rootText input) kept).length = 0 ↔ rootText input = [] ∧ kept = [] := text_nil h.stands
  have htake : ∀ (b : Bytes) n, (put b n [0]).take n = b.take n := by
    intro b n
    rw [take_eq_slice, take_eq_slice, slice_put_off (.inl (by omega))]
  refine ⟨_, rfl, ?_⟩
  unfold canonical
  by_cases hempty : rootText input = [] ∧ kept = []
  · have hpos : st.pos = 0 := by
      rw [h.pos]
      exact hnil.2 hempty
    rw [if_pos (by rw [(rootText_nil input).1 hempty.1, hpos]; rfl), if_pos hempty, htake]
    have hin : 0 + [(46 : UInt8)].length ≤ st.out.length := by
      rw [h.length]
      exact Nat.le_of_ble_eq_true rfl
    exact (take_put hin).trans (List.nil_append _)
  · rw [if_neg, if_neg hempty, htake, h.out, text_eq]
    rw [Bool.and_eq_true, Bool.not_eq_true', beq_iff_eq]
    rintro ⟨habs, hpos⟩
    rw [h.pos] at hpos
    exact hempty (hnil.1 hpos)

/-- **What is parsed** is the canonical text of the components that stand. -/
theorem parse_canonical {p : Path} (h : parse required storage input = .ok p) : ∃ kept st,
    standing (components (body input)) = some kept ∧ Holds (rootText input) st kept ∧
    p = { bytes := canonical input kept, absolute := isAbsolute input } ∧ checkInput input required = .ok () := by
  obtain ⟨normalized, hnormal, h⟩ := Except.bind_ok.1 h
  obtain ⟨u, hcheck, hnormal⟩ := Except.bind_ok.1 hnormal
  obtain ⟨st, hpass, hnormal⟩ := Except.bind_ok.1 hnormal
  rw [pass_eq] at hpass
  obtain ⟨kept, hstanding, hholds⟩ := components_hold (rooted input) (start_holds input storage)
    (components_pieces (body input)) hpass
  obtain ⟨st', hst', htext⟩ := finish_eq hholds
  refine ⟨kept, st, hstanding, hholds, ?_, hcheck⟩
  simp only [hst'] at hnormal
  cases hnormal
  cases h
  rw [← htext]

/-- **Components that stand are parsed to their text.** -/
theorem parse_stands (st : State) (hcheck : checkInput input required = .ok ()) (h : Holds (rootText input) st kept)
    (hsegments : components (body input) = kept.reverse ∨ (kept = [] ∧ components (body input) = [[46]])) :
    parse required storage input = .ok { bytes := canonical input kept, absolute := isAbsolute input } := by
  have hroom : (text (rootText input) kept).length ≤ filePathMax := h.pos ▸ h.bytes
  have hfits : textChars (rootText input) kept ≤ filePathMaxChars := h.chars ▸ h.fits
  obtain ⟨st', hrun, hst'⟩ : ∃ st', pass (isAbsolute input) (body input) (start input storage.bytes) = .ok st' ∧
      Holds (rootText input) st' kept := by
    rw [pass_eq]
    rcases hsegments with hsegments | ⟨rfl, hsegments⟩
    · rw [hsegments]
      exact components_stand (rooted input) (start_holds input storage) h.stands hroom hfits
    · rw [hsegments]
      exact ⟨start input storage.bytes, rfl, start_holds input storage⟩
  obtain ⟨st'', hst'', htext⟩ := finish_eq hst'
  unfold parse normalizeFile
  rw [hcheck]
  simp only [bind, Except.bind, hrun, hst'', htext]

/-! ## Once more -/

theorem checkInput_ok : checkInput input required = .ok () ↔ input ≠ [] ∧ input.length ≤ filePathMax ∧
    (∀ r, required = some r → r = isAbsolute input) ∧ (isAbsolute input = false → isSeparator (input.headD 0) = false) := by
  have hempty : (input.length == 0) = false ↔ input ≠ [] := by
    rw [beq_eq_false_iff_ne, ne_eq, List.length_eq_zero_iff]
  have hlong : decide (input.length > filePathMax) = false ↔ input.length ≤ filePathMax := by
    rw [decide_eq_false_iff_not, Nat.not_lt]
  unfold checkInput
  rw [← hempty, ← hlong]
  generalize (input.length == 0) = b0
  generalize decide (input.length > filePathMax) = b1
  generalize isAbsolute input = absolute
  generalize isSeparator (input.headD 0) = sep
  cases b0 <;> cases b1 <;> cases absolute <;> cases sep <;> rcases required with _ | (_ | _) <;>
    simp [reject, bind, Except.bind]

theorem Char.ascii {u : Nat} {bs : Bytes} {b : UInt8} (h : Char u bs) (hb : b ∈ bs) (hlow : b.toNat < 0x80) :
    u = b.toNat := by
  cases h with
  | one h => rw [List.mem_singleton.1 hb]
  | two h1 h2 h3 h4 =>
    rcases List.mem_cons.1 hb with rfl | hb
    · omega
    · rw [List.mem_singleton.1 hb] at hlow
      omega
  | three h1 h2 h3 h4 h5 h6 h7 h8 =>
    rcases List.mem_cons.1 hb with rfl | hb
    · omega
    · rcases List.mem_cons.1 hb with rfl | hb
      · omega
      · rw [List.mem_singleton.1 hb] at hlow
        omega

theorem Chars.ascii : ∀ {units : List Nat} {text : Bytes} {b : UInt8}, Chars units text → b ∈ text → b.toNat < 0x80 →
    Fat.unitAllowed b.toNat = true
  | [], text, b, h, hb, _ => by
    rw [← Option.some.inj h.text] at hb
    cases hb
  | u :: us, text, b, h, hb, hlow => by
    obtain ⟨bs, rest, hbs, hrest, rfl⟩ := PrefixCode.writeAll_cons h.text
    rcases List.mem_append.1 hb with hb | hb
    · have hchar := NameCodec.char_of_text (h.plane u List.mem_cons_self) hbs
      rw [← Char.ascii hchar hb hlow]
      exact h.allowed u List.mem_cons_self
    · have hchars : Chars us rest := ⟨hrest, fun v hv => h.plane v (List.mem_cons_of_mem u hv),
        fun v hv => h.allowed v (List.mem_cons_of_mem u hv)⟩
      exact hchars.ascii hb hlow

theorem Stands.no_colon {c : Bytes} (h : Stands c) : (58 : UInt8) ∉ c := by
  intro hmem
  obtain ⟨units, hunits, -⟩ := h.piece.chars h.passes
  exact absurd (hunits.ascii hmem (by decide)) (by decide)

theorem mem_intercalate {sep : Bytes} {b : UInt8} : ∀ {l : List Bytes}, b ∈ sep.intercalate l → b ∈ sep ∨ ∃ c ∈ l, b ∈ c
  | [], h => by cases h
  | [c], h => by
    rw [List.intercalate_singleton] at h
    exact .inr ⟨c, List.mem_singleton_self c, h⟩
  | c :: d :: l, h => by
    rw [List.intercalate_cons_cons, List.mem_append, List.mem_append] at h
    rcases h with (h | h) | h
    · exact .inr ⟨c, List.mem_cons_self, h⟩
    · exact .inl h
    · rcases mem_intercalate h with h | ⟨e, he, hb⟩
      · exact .inl h
      · exact .inr ⟨e, List.mem_cons_of_mem c he, hb⟩

theorem components_intercalate : ∀ {l : List Bytes}, (∀ c ∈ l, Piece c) → components ([(92 : UInt8)].intercalate l) = l
  | [], _ => rfl
  | [c], h => by
    have hc := h c (List.mem_singleton_self c)
    rw [List.intercalate_singleton, Hive.components_single hc.nonempty hc.plain]
  | c :: d :: l, h => by
    have hc := h c List.mem_cons_self
    rw [List.intercalate_cons_cons, List.append_assoc, List.singleton_append, Hive.components_append rfl,
      Hive.components_single hc.nonempty hc.plain, components_intercalate fun e he => h e (List.mem_cons_of_mem c he)]
    rfl

theorem asciiUpper_twice (b : UInt8) : asciiUpper (asciiUpper b) = asciiUpper b := by
  revert b
  exact byte_forall (by decide +kernel)

/-- What the canonical text is taken for. -/
structure SameShape (input : Bytes) (kept : List Bytes) : Prop where
  absolute : isAbsolute (canonical input kept) = isAbsolute input
  root : rootText (canonical input kept) = rootText input
  segments : components (body (canonical input kept)) = kept.reverse ∨
    (kept = [] ∧ components (body (canonical input kept)) = [[46]])
  plain : isAbsolute input = false → isSeparator ((canonical input kept).headD 0) = false

theorem absolute_shape (habsolute : isAbsolute input = true) (hstands : ∀ c ∈ kept, Stands c) : SameShape input kept := by
  have halpha : isAsciiAlpha (asciiUpper (input.headD 0)) = true := by
    unfold isAbsolute at habsolute
    split at habsolute
    · simp only [Bool.and_eq_true] at habsolute
      unfold isAsciiAlpha
      rw [asciiUpper_twice]
      exact habsolute.1.1
    · cases habsolute
  have hroot : rootText input = [asciiUpper (input.headD 0), 58, 92] := if_pos habsolute
  have htext : canonical input kept =
      asciiUpper (input.headD 0) :: 58 :: 92 :: [(92 : UInt8)].intercalate kept.reverse := by
    rw [canonical, if_neg (by rw [hroot]; exact fun h => List.cons_ne_nil _ _ h.1), spelling, hroot]
    rfl
  have habs : isAbsolute (canonical input kept) = true := by
    rw [htext, isAbsolute, halpha]
    rfl
  refine ⟨habs.trans habsolute.symm, ?_, .inl ?_, fun h => ?_⟩
  · rw [rootText, if_pos habs, hroot, htext, List.headD_cons, asciiUpper_twice]
  · rw [body, if_pos habs, htext]
    exact components_intercalate fun c hc => (hstands c (List.mem_reverse.1 hc)).piece
  · rw [habsolute] at h
    cases h

theorem colon_of_absolute {text : Bytes} (h : isAbsolute text = true) : (58 : UInt8) ∈ text := by
  unfold isAbsolute at h
  split at h
  · simp only [Bool.and_eq_true, beq_iff_eq] at h
    rw [← h.1.2]
    exact List.mem_cons_of_mem _ List.mem_cons_self
  · cases h

theorem relative_shape (hrelative : isAbsolute input = false) (hstands : ∀ c ∈ kept, Stands c) : SameShape input kept := by
  have hroot : rootText input = [] := (rootText_nil input).2 hrelative
  by_cases hk : kept = []
  · have htext : canonical input kept = [46] := if_pos ⟨hroot, hk⟩
    refine ⟨?_, ?_, .inr ⟨hk, ?_⟩, fun _ => ?_⟩
    · rw [htext, hrelative]
      rfl
    · rw [htext, hroot]
      rfl
    · rw [htext]
      rfl
    · rw [htext]
      rfl
  · have htext : canonical input kept = [(92 : UInt8)].intercalate kept.reverse := by
      rw [canonical, if_neg fun h => hk h.2, spelling, hroot]
      rfl
    have habs : isAbsolute (canonical input kept) = false := by
      refine Bool.eq_false_iff.2 fun habs => ?_
      have hcolon := colon_of_absolute habs
      rw [htext] at hcolon
      rcases mem_intercalate hcolon with h | ⟨c, hc, h⟩
      · exact absurd h (by decide)
      · exact (hstands c (List.mem_reverse.1 hc)).no_colon h
    refine ⟨habs.trans hrelative.symm, ?_, .inl ?_, fun _ => ?_⟩
    · rw [hroot]
      exact (rootText_nil _).2 habs
    · rw [body, if_neg (Bool.eq_false_iff.1 habs), htext]
      exact components_intercalate fun c hc => (hstands c (List.mem_reverse.1 hc)).piece
    · rw [htext]
      obtain ⟨c, l, hl⟩ := List.exists_cons_of_ne_nil (fun h => hk (List.reverse_eq_nil_iff.1 h))
      have hpiece := (hstands c (List.mem_reverse.1 (hl ▸ List.mem_cons_self))).piece
      obtain ⟨b, rest, rfl⟩ := List.exists_cons_of_ne_nil hpiece.nonempty
      rw [hl, List.intercalate_cons_cons_left]
      exact hpiece.plain b List.mem_cons_self

theorem same_shape (hstands : ∀ c ∈ kept, Stands c) : SameShape input kept := by
  cases h : isAbsolute input
  · exact relative_shape h hstands
  · exact absolute_shape h hstands

theorem canonical_length {st : State} (h : Holds (rootText input) st kept) :
    canonical input kept ≠ [] ∧ (canonical input kept).length ≤ filePathMax := by
  unfold canonical
  by_cases hempty : rootText input = [] ∧ kept = []
  · rw [if_pos hempty]
    exact ⟨List.cons_ne_nil _ _, Nat.le_of_ble_eq_true rfl⟩
  · rw [if_neg hempty, ← text_eq]
    refine ⟨fun hnil => hempty ((text_nil h.stands).1 (congrArg List.length hnil)), ?_⟩
    rw [← h.pos]
    exact h.bytes

/-- **Normalising once more changes nothing.** -/
theorem parse_again {st : State} (hcheck : checkInput input required = .ok ()) (h : Holds (rootText input) st kept) :
    parse required storage (canonical input kept) = .ok { bytes := canonical input kept, absolute := isAbsolute input } := by
  have hshape : SameShape input kept := same_shape h.stands
  obtain ⟨-, -, hrequired, -⟩ := checkInput_ok.1 hcheck
  have hsame : canonical (canonical input kept) kept = canonical input kept := by
    conv_lhs => rw [canonical, hshape.root]
    rfl
  have hlength := canonical_length h
  have hcheck' : checkInput (canonical input kept) required = .ok () := by
    refine checkInput_ok.2 ⟨hlength.1, hlength.2, fun r hr => ?_, fun habs => ?_⟩
    · rw [hshape.absolute]
      exact hrequired r hr
    · exact hshape.plain (hshape.absolute.symm.trans habs)
  have hagain : parse required storage (canonical input kept) =
      .ok { bytes := canonical (canonical input kept) kept, absolute := isAbsolute (canonical input kept) } :=
    parse_stands st hcheck' (hshape.root.symm ▸ h) hshape.segments
  rw [hagain, hsame, hshape.absolute]

/-! ## The characters of a path -/

/-- A text of characters, one for each unit. -/
def Spelled (units : List Nat) (text : Bytes) : Prop := writeAll Fat.utf8OfUnit units = some text

theorem rootText_spelled (input : Bytes) : ∃ units, Spelled units (rootText input) ∧
    units.length = (rootText input).length := by
  unfold rootText
  split
  · rename_i habs
    have hlow : (asciiUpper (input.headD 0)).toNat < 0x80 := by
      unfold isAbsolute at habs
      split at habs
      · simp only [Bool.and_eq_true] at habs
        have halpha := habs.1.1
        unfold isAsciiAlpha at halpha
        simp only [Bool.and_eq_true, decide_eq_true_eq] at halpha
        exact Nat.lt_of_le_of_lt (UInt8.le_iff_toNat_le.1 halpha.2) (by decide)
      · cases habs
    refine ⟨[(asciiUpper (input.headD 0)).toNat, 58, 92], ?_, rfl⟩
    have hone : ∀ {b : UInt8}, b.toNat < 0x80 → Fat.utf8OfUnit b.toNat = some [b] :=
        fun h => NameCodec.utf8OfUnit_char (.one h)
    rw [Spelled, writeAll, hone hlow]
    rfl
  · exact ⟨[], rfl, rfl⟩

theorem text_spelled {root : Bytes} (hroot : ∃ units, Spelled units root ∧ units.length = root.length) :
    ∀ {kept : List Bytes}, (∀ c ∈ kept, Stands c) → ∃ units, Spelled units (text root kept) ∧
    units.length = textChars root kept
  | [], _ => hroot
  | c :: kept, h => by
    have hc := h c List.mem_cons_self
    obtain ⟨us, hus, hcount⟩ := text_spelled hroot fun d hd => h d (List.mem_cons_of_mem c hd)
    obtain ⟨cs, hcs, hchars⟩ := hc.piece.chars hc.passes
    obtain ⟨ss, hss, hlen⟩ : ∃ ss, Spelled ss (between kept) ∧ ss.length = (between kept).length := by
      unfold between
      split
      · exact ⟨[], rfl, rfl⟩
      · exact ⟨[92], rfl, rfl⟩
    refine ⟨us ++ ss ++ cs, PrefixCode.writeAll_append (PrefixCode.writeAll_append hus hss) hcs.text, ?_⟩
    rw [List.length_append, List.length_append, textChars]
    omega

theorem canonical_spelled {st : State} (h : Holds (rootText input) st kept) :
    ∃ units, Spelled units (canonical input kept) ∧ units.length ≤ filePathMaxChars := by
  unfold canonical
  split
  · exact ⟨[46], rfl, Nat.le_of_ble_eq_true rfl⟩
  · obtain ⟨units, hunits, hcount⟩ := text_spelled (rootText_spelled input) h.stands
    rw [← text_eq]
    refine ⟨units, hunits, ?_⟩
    rw [hcount, ← h.chars]
    exact h.fits

/-! ## The three kinds -/

/-- A path in lexical normal form: its text is that of the components of the input that stand, within the limits. -/
structure NormalForm (input : Bytes) (p : Path) : Prop where
  text : ∃ kept, standing (components (body input)) = some kept ∧ p.bytes = canonical input kept ∧ ∀ c ∈ kept, Good c
  absolute : p.absolute = isAbsolute input
  bytes : p.bytes.length ≤ filePathMax
  chars : ∃ units, Spelled units p.bytes ∧ units.length ≤ filePathMaxChars

/-- The components in front of `pre`'s end have passed their checks, and `st` is the state behind them. -/
def Reaches (storage : Storage) (input : Bytes) (pre : List Bytes) (st : State) : Prop :=
  pre.foldlM (component (isAbsolute input)) (start input storage.bytes) = .ok st

/-- What parsing a kind of path promises. -/
structure Normalises (parse : Storage → Bytes → Except Error Path) (required : Option Bool) : Prop where
  normal : ∀ {storage input p}, parse storage input = .ok p → NormalForm input p
  again : ∀ {storage input p}, parse storage input = .ok p → ∀ storage', parse storage' p.bytes = .ok p
  traversal : ∀ {storage input pre post st}, checkInput input required = .ok () →
    components (body input) = pre ++ [46, 46] :: post → Reaches storage input pre st → standing pre = some [] →
    parse storage input = .error .rootTraversal
  entries : ∀ {storage input pre post st}, components (body input) = pre ++ post → Reaches storage input pre st →
    st.starts.length < pathRollbackEntries

theorem reaches_holds {pre post : List Bytes} {st : State} (hsegments : components (body input) = pre ++ post)
    (h : Reaches storage input pre st) : ∃ kept, standing pre = some kept ∧ Holds (rootText input) st kept :=
  components_hold (rooted input) (start_holds input storage)
    (fun c hc => components_pieces (body input) c (hsegments ▸ List.mem_append_left post hc)) h

theorem parse_normalises (required : Option Bool) : Normalises (SdkPath.parse required) required where
  normal := by
    intro storage input p h
    obtain ⟨kept, st, hstanding, hholds, rfl, -⟩ := parse_canonical h
    refine ⟨⟨kept, hstanding, rfl, fun c hc => ?_⟩, rfl, (canonical_length hholds).2, canonical_spelled hholds⟩
    have hstands := hholds.stands c hc
    obtain ⟨units, hunits, hcount⟩ := hstands.piece.chars hstands.passes
    exact ⟨hstands.piece.nonempty, hstands.piece.plain, hstands.noDot, hstands.noDots, hstands.passes.bytes, units, hunits,
      hcount ▸ hstands.passes.chars⟩
  again := by
    intro storage input p h storage'
    obtain ⟨kept, st, -, hholds, rfl, hcheck⟩ := parse_canonical h
    exact parse_again hcheck hholds
  traversal := by
    intro storage input pre post st hcheck hsegments hreaches hstanding
    obtain ⟨kept, hkept, hholds⟩ := reaches_holds hsegments hreaches
    rw [hstanding] at hkept
    cases hkept
    have hpass : pass (isAbsolute input) (body input) (start input storage.bytes) = .error .rootTraversal := by
      rw [pass_eq, hsegments, List.foldlM_append, hreaches]
      show (List.foldlM (component (isAbsolute input)) st ([46, 46] :: post) : Except Error State) = _
      rw [List.foldlM_cons, component_root hholds]
      rfl
    unfold SdkPath.parse normalizeFile
    rw [hcheck]
    simp only [bind, Except.bind, hpass]
  entries := by
    intro storage input pre post st hsegments hreaches
    obtain ⟨kept, -, hholds⟩ := reaches_holds hsegments hreaches
    exact hholds.entries

/-- **Paths of the SDK are in lexical normal form.** -/
theorem sdkPaths_normalise : Normalises FilePath.parse none ∧ Normalises AbsoluteFilePath.parse (some true) ∧
    Normalises RelativeFilePath.parse (some false) :=
  ⟨parse_normalises none, parse_normalises (some true), parse_normalises (some false)⟩

end Whole

example : (AbsoluteFilePath.parse ⟨zeros (filePathMax + 1), length_zeros _⟩ (ascii "c:/a/../b")).isOk = true := by
  unfold AbsoluteFilePath.parse SdkPath.parse normalizeFile
  simp only [pass_eq]
  decide +kernel

/-- **A check of the whole path comes first**: `..` alone is no absolute path. -/
theorem traversal_behind_checks : ¬ ∀ (storage : Storage) (input : Bytes) (pre post : List Bytes) (st : State),
    components (body input) = pre ++ [46, 46] :: post → Reaches storage input pre st → standing pre = some [] →
    AbsoluteFilePath.parse storage input = .error .rootTraversal := by
  intro h
  have hparse := h ⟨zeros (filePathMax + 1), length_zeros _⟩ [46, 46] [] [] (start [46, 46] (zeros (filePathMax + 1)))
      rfl rfl rfl
  have hexpected : AbsoluteFilePath.parse ⟨zeros (filePathMax + 1), length_zeros _⟩ [46, 46] =
      .error .expectedAbsolute := rfl
  rw [hexpected] at hparse
  cases hparse

end SdkPath
end R4
