import R4Recovery.Journal
import R4Recovery.Lines
/-!
# JournalPath — normalized paths

An output of `normalizeAbsolutePath` is a drive or a root and well-formed components joined by backslashes
(`normalPath_of_normalize`).  It normalizes to itself unless it looks like a drive written `\X\` (`normalize_self`);
the path rules of a valid journal admit no such path.
-/
namespace R4
namespace Journal

/-! ## The shape of an output -/

def isComponent (c : Bytes) : Bool :=
  !c.isEmpty && !c.any isPathSeparator && !pathEqualsIgnoreCase c (ascii ".") && !pathEqualsIgnoreCase c (ascii "..") &&
    !componentBad c

def joinPath : List Bytes → Bytes
  | [] => []
  | c :: cs => c ++ cs.flatMap (fun c => 92 :: c)

def isRoot : Bytes → Bool
  | [a] => a == 92
  | [a, b, c] => isDriveLetter a && toUpper a == a && b == 58 && c == 92
  | _ => false

theorem isRoot_cases {root : Bytes} (h : isRoot root = true) :
    root = [92] ∨ ∃ a, isDriveLetter a = true ∧ root = [a, 58, 92] := by
  rcases root with _ | ⟨a, _ | ⟨b, _ | ⟨c, _ | ⟨d, rest⟩⟩⟩⟩
  · cases h
  · rw [isRoot, beq_iff_eq] at h
    exact .inl (by rw [h])
  · cases h
  · simp only [isRoot, Bool.and_eq_true, beq_iff_eq] at h
    obtain ⟨⟨⟨ha, -⟩, rfl⟩, rfl⟩ := h
    exact .inr ⟨a, ha, rfl⟩
  · cases h

/-- A root and its components. -/
def NormalPath (cap : Nat) (p : Bytes) : Prop :=
  ∃ root comps, isRoot root = true ∧ (∀ c ∈ comps, isComponent c = true) ∧ p = root ++ joinPath comps ∧ p.length < cap

theorem getLast?_of_isRoot {root : Bytes} (h : isRoot root = true) : root.getLast? = some 92 := by
  match root, h with
  | [a], h => simpa [isRoot] using h
  | [a, b, c], h => simp only [isRoot, Bool.and_eq_true, beq_iff_eq] at h; simp [h.2]

theorem getLast?_append_component {c : Bytes} (h : isComponent c = true) (out : Bytes) :
    (out ++ c).getLast? ≠ some 92 := by
  simp only [isComponent, Bool.and_eq_true, Bool.not_eq_true', List.isEmpty_eq_false_iff] at h
  obtain ⟨⟨⟨⟨hne, hs⟩, -⟩, -⟩, -⟩ := h
  rw [List.getLast?_append_of_ne_nil _ hne]
  intro hl
  rw [List.any_eq_false] at hs
  exact hs 92 (List.mem_of_getLast? hl) rfl

/-- The text one component adds behind `out`. -/
def appended (out c : Bytes) : Bytes := if out.getLast? = some 92 then c else 92 :: c

/-- The components that are not dropped. -/
def notDot (c : Bytes) : Bool := !pathEqualsIgnoreCase c (ascii ".")

theorem notDot_component {c : Bytes} (h : isComponent c = true) : notDot c = true := by
  simp only [isComponent, Bool.and_eq_true] at h
  exact h.1.1.2

theorem appendNormalized_some {cap : Nat} {out value p : Bytes} (h : appendNormalized cap out value = some p) :
    (out ++ value).length < cap ∧ p = out ++ value := by
  unfold appendNormalized at h
  by_cases hlen : out.length + value.length < cap
  · rw [if_pos hlen] at h
    cases h
    exact ⟨by rw [List.length_append]; exact hlen, rfl⟩
  · rw [if_neg hlen] at h
    cases h

theorem normalizeFrom_cons {cap : Nat} {c : Bytes} {cs : List Bytes} {out p : Bytes}
    (hc : c ≠ [] ∧ c.any isPathSeparator = false) (h : normalizeFrom cap (c :: cs) out = some p) :
    (notDot c = false ∧ normalizeFrom cap cs out = some p) ∨
      (isComponent c = true ∧ (out ++ appended out c).length < cap ∧
        normalizeFrom cap cs (out ++ appended out c) = some p) := by
  rw [normalizeFrom] at h
  by_cases hdot : pathEqualsIgnoreCase c (ascii ".") = true
  · rw [if_pos hdot] at h; exact .inl ⟨by simp [notDot, hdot], h⟩
  rw [if_neg hdot] at h
  by_cases hdots : pathEqualsIgnoreCase c (ascii "..") = true
  · rw [if_pos hdots] at h; cases h
  rw [if_neg hdots] at h
  by_cases hbad : componentBad c = true
  · rw [if_pos hbad] at h; cases h
  rw [if_neg hbad] at h
  have hcomp : isComponent c = true := by
    simp only [isComponent, Bool.and_eq_true, Bool.not_eq_true', List.isEmpty_eq_false_iff]
    exact ⟨⟨⟨⟨hc.1, hc.2⟩, by simpa using hdot⟩, by simpa using hdots⟩, by simpa using hbad⟩
  refine .inr ⟨hcomp, ?_⟩
  unfold appended
  by_cases hl : out.getLast? = some 92
  · rw [if_neg (by rw [hl]; decide)] at h
    rw [if_pos hl]
    cases hv : appendNormalized cap out c with
    | none => rw [hv] at h; cases h
    | some v =>
      rw [hv] at h
      obtain ⟨hlen, rfl⟩ := appendNormalized_some hv
      exact ⟨hlen, h⟩
  · rw [if_pos (by rw [bne_iff_ne]; exact hl)] at h
    rw [if_neg hl]
    cases hv : appendNormalized cap out ('\\'.toUInt8 :: c) with
    | none => rw [hv] at h; cases h
    | some v =>
      rw [hv] at h
      obtain ⟨hlen, rfl⟩ := appendNormalized_some hv
      exact ⟨hlen, h⟩

theorem normalizeFrom_component {cap : Nat} {c : Bytes} (cs : List Bytes) {out : Bytes} (hc : isComponent c = true)
    (hlen : (out ++ appended out c).length < cap) :
    normalizeFrom cap (c :: cs) out = normalizeFrom cap cs (out ++ appended out c) := by
  simp only [isComponent, Bool.and_eq_true, Bool.not_eq_true'] at hc
  obtain ⟨⟨⟨⟨-, -⟩, hdot⟩, hdots⟩, hbad⟩ := hc
  rw [normalizeFrom, if_neg (by simp [hdot]), if_neg (by simp [hdots]), if_neg (by simp [hbad])]
  unfold appended at hlen ⊢
  by_cases hl : out.getLast? = some 92
  · rw [if_pos hl, List.length_append] at hlen
    rw [if_neg (by rw [hl]; decide), if_pos hl, appendNormalized, if_pos hlen]
  · rw [if_neg hl, List.length_append] at hlen
    rw [if_pos (by rw [bne_iff_ne]; exact hl), if_neg hl, appendNormalized,
      if_pos (show out.length + ('\\'.toUInt8 :: c).length < cap from hlen)]
    rfl

theorem appended_open {out c : Bytes} (h : out.getLast? ≠ some 92) : appended out c = 92 :: c := by
  rw [appended, if_neg h]

theorem getLast?_appended {out c : Bytes} (hc : isComponent c = true) : (out ++ appended out c).getLast? ≠ some 92 := by
  unfold appended
  split
  · exact getLast?_append_component hc out
  · rw [show out ++ 92 :: c = (out ++ [92]) ++ c by simp]
    exact getLast?_append_component hc _

theorem normalizeFrom_open {cap : Nat} (cs : List Bytes) {out p : Bytes}
    (hcs : ∀ c ∈ cs, c ≠ [] ∧ c.any isPathSeparator = false)
    (hl : out.getLast? ≠ some 92) (hlen : out.length < cap) (h : normalizeFrom cap cs out = some p) :
    (∀ d ∈ cs.filter notDot, isComponent d = true) ∧ p = out ++ (cs.filter notDot).flatMap (fun c => 92 :: c) ∧
      p.length < cap := by
  induction cs generalizing out with
  | nil =>
    simp only [normalizeFrom, Option.some.injEq] at h
    subst h
    exact ⟨by simp, by simp, hlen⟩
  | cons c cs ih =>
    have hcs' : ∀ c ∈ cs, c ≠ [] ∧ c.any isPathSeparator = false := fun d hd => hcs d (by simp [hd])
    rcases normalizeFrom_cons (hcs c (by simp)) h with ⟨hdot, h⟩ | ⟨hc, hlen', h⟩
    · rw [List.filter_cons_of_neg (by simp [hdot])]
      exact ih hcs' hl hlen h
    · obtain ⟨hds, hp, hpl⟩ := ih hcs' (getLast?_appended hc) hlen' h
      rw [List.filter_cons_of_pos (notDot_component hc)]
      refine ⟨List.forall_mem_cons.2 ⟨hc, hds⟩, ?_, hpl⟩
      rw [hp, appended_open hl]; simp

theorem normalizeFrom_root {cap : Nat} (cs : List Bytes) {root p : Bytes}
    (hcs : ∀ c ∈ cs, c ≠ [] ∧ c.any isPathSeparator = false)
    (hl : root.getLast? = some 92) (hlen : root.length < cap) (h : normalizeFrom cap cs root = some p) :
    (∀ d ∈ cs.filter notDot, isComponent d = true) ∧ p = root ++ joinPath (cs.filter notDot) ∧ p.length < cap := by
  induction cs with
  | nil =>
    simp only [normalizeFrom, Option.some.injEq] at h
    subst h
    exact ⟨by simp, by simp [joinPath], hlen⟩
  | cons c cs ih =>
    have hcs' : ∀ c ∈ cs, c ≠ [] ∧ c.any isPathSeparator = false := fun d hd => hcs d (by simp [hd])
    rcases normalizeFrom_cons (hcs c (by simp)) h with ⟨hdot, h⟩ | ⟨hc, hlen', h⟩
    · rw [List.filter_cons_of_neg (by simp [hdot])]
      exact ih hcs' h
    · obtain ⟨hds, hp, hpl⟩ := normalizeFrom_open cs hcs' (getLast?_appended hc) hlen' h
      rw [List.filter_cons_of_pos (notDot_component hc)]
      refine ⟨List.forall_mem_cons.2 ⟨hc, hds⟩, ?_, hpl⟩
      rw [hp, appended, if_pos hl, joinPath, List.append_assoc]

theorem mem_pathComponents (v cur : Bytes) (hcur : cur.any isPathSeparator = false) :
    ∀ c ∈ pathComponents v cur, c ≠ [] ∧ c.any isPathSeparator = false := by
  induction v generalizing cur with
  | nil =>
    intro c hc
    unfold pathComponents at hc
    split at hc
    · cases hc
    · rename_i he
      rw [List.mem_singleton.1 hc]
      exact ⟨by simpa using he, hcur⟩
  | cons ch rest ih =>
    intro c hc
    unfold pathComponents at hc
    split at hc
    · split at hc
      · exact ih [] rfl c hc
      · rename_i he
        rcases List.mem_cons.1 hc with rfl | hc
        · exact ⟨by simpa using he, hcur⟩
        · exact ih [] rfl c hc
    · rename_i hs
      exact ih (cur ++ [ch]) (by rw [List.any_append, hcur]; simpa using hs) c hc

theorem isRoot_drive {c : UInt8} (h : isDriveLetter c = true) : isRoot [toUpper c, 58, 92] = true := by
  have h' : isDriveLetter (toUpper c) = true := by rw [isDriveLetter, toUpper_toUpper]; exact h
  simp [isRoot, h', toUpper_toUpper]

theorem isRoot_of_pathRoot {v root rest : Bytes} (h : pathRoot v = some (root, rest)) : isRoot root = true := by
  unfold pathRoot at h
  split at h
  · cases h
  · split at h
    · split at h
      · rename_i hc
        simp only [Bool.and_eq_true] at hc
        cases h
        exact isRoot_drive hc.1.2
      · split at h
        · rename_i hc
          simp only [Bool.and_eq_true] at hc
          split at h
          · cases h; exact isRoot_drive hc.1
          · cases h
        · split at h
          · cases h; rfl
          · cases h
    · split at h
      · rename_i hc
        simp only [Bool.and_eq_true] at hc
        cases h
        exact isRoot_drive hc.1
      · split at h
        · cases h; rfl
        · cases h
    · split at h
      · cases h; rfl
      · cases h

/-- **An output is the root and the components of the input that are no dots**, all of them well formed. -/
theorem normalize_parts {cap : Nat} {v p : Bytes} (h : normalizeAbsolutePath cap v = some p) :
    ∃ root rest, pathRoot v = some (root, rest) ∧ isRoot root = true ∧
      (∀ c ∈ (pathComponents rest []).filter notDot, isComponent c = true) ∧
      p = root ++ joinPath ((pathComponents rest []).filter notDot) ∧ p.length < cap := by
  unfold normalizeAbsolutePath at h
  split at h
  · cases h
  · cases hr : pathRoot v with
    | none => rw [hr] at h; cases h
    | some rr =>
      obtain ⟨root, rest⟩ := rr
      rw [hr] at h
      simp only at h
      split at h
      · rename_i hlen
        have hroot := isRoot_of_pathRoot hr
        exact ⟨root, rest, rfl, hroot,
          normalizeFrom_root _ (mem_pathComponents rest [] rfl) (getLast?_of_isRoot hroot) hlen h⟩
      · cases h

theorem normalPath_of_normalize {cap : Nat} {v p : Bytes} (h : normalizeAbsolutePath cap v = some p) :
    NormalPath cap p := by
  obtain ⟨root, rest, -, hroot, hcomps, hp, hlen⟩ := normalize_parts h
  exact ⟨root, _, hroot, hcomps, hp, hlen⟩

/-! ## Normalizing an output again -/

/-- A path that starts like a drive written `\X\`. -/
def driveRooted : Bytes → Bool
  | a :: b :: c :: _ => isPathSeparator a && isDriveLetter b && isPathSeparator c
  | _ => false

theorem driveRooted_cons {p : Bytes} (h : driveRooted p = true) : ∃ a b c rest, p = a :: b :: c :: rest := by
  rcases p with _ | ⟨a, _ | ⟨b, _ | ⟨c, rest⟩⟩⟩
  · cases h
  · cases h
  · cases h
  · exact ⟨a, b, c, rest, rfl⟩

theorem pathComponents_append (c rest cur : Bytes) (h : c.any isPathSeparator = false) :
    pathComponents (c ++ rest) cur = pathComponents rest (cur ++ c) := by
  induction c generalizing cur with
  | nil => simp
  | cons ch c ih =>
    rw [List.any_cons, Bool.or_eq_false_iff] at h
    rw [List.cons_append, pathComponents, if_neg (by simp [h.1]), ih _ h.2]
    simp

theorem pathComponents_flatMap (cs : List Bytes) (cur : Bytes) (hcur : cur ≠ []) (h : ∀ c ∈ cs, isComponent c = true) :
    pathComponents (cs.flatMap (fun c => 92 :: c)) cur = cur :: cs := by
  induction cs generalizing cur with
  | nil => simp [pathComponents, hcur]
  | cons c cs ih =>
    have hc := h c (by simp)
    simp only [isComponent, Bool.and_eq_true, Bool.not_eq_true', List.isEmpty_eq_false_iff] at hc
    obtain ⟨⟨⟨⟨hne, hs⟩, -⟩, -⟩, -⟩ := hc
    rw [List.flatMap_cons, List.cons_append, pathComponents, if_pos (by rfl), if_neg (by simp [hcur]),
      pathComponents_append c _ _ hs, List.nil_append, ih c hne (fun c hc => h c (by simp [hc]))]

theorem pathComponents_joinPath (cs : List Bytes) (h : ∀ c ∈ cs, isComponent c = true) :
    pathComponents (joinPath cs) [] = cs := by
  cases cs with
  | nil => rfl
  | cons c cs =>
    have hc := h c (by simp)
    simp only [isComponent, Bool.and_eq_true, Bool.not_eq_true', List.isEmpty_eq_false_iff] at hc
    obtain ⟨⟨⟨⟨hne, hs⟩, -⟩, -⟩, -⟩ := hc
    rw [joinPath, pathComponents_append c _ _ hs, List.nil_append,
      pathComponents_flatMap cs c hne (fun c hc => h c (by simp [hc]))]

theorem normalizeFrom_flatMap {cap : Nat} (cs : List Bytes) {out : Bytes} (h : ∀ c ∈ cs, isComponent c = true)
    (hl : out.getLast? ≠ some 92) (hlen : (out ++ cs.flatMap (fun c => 92 :: c)).length < cap) :
    normalizeFrom cap cs out = some (out ++ cs.flatMap (fun c => 92 :: c)) := by
  induction cs generalizing out with
  | nil => simp [normalizeFrom]
  | cons c cs ih =>
    have hc := h c (by simp)
    have he : out ++ appended out c ++ cs.flatMap (fun c => 92 :: c) = out ++ (c :: cs).flatMap (fun c => 92 :: c) := by
      rw [appended_open hl]; simp
    rw [← he] at hlen ⊢
    rw [normalizeFrom_component cs hc (by rw [List.length_append] at hlen; omega)]
    exact ih (fun c hc => h c (by simp [hc])) (getLast?_appended hc) hlen

theorem normalizeFrom_joinPath {cap : Nat} (cs : List Bytes) {root : Bytes} (h : ∀ c ∈ cs, isComponent c = true)
    (hl : root.getLast? = some 92) (hlen : (root ++ joinPath cs).length < cap) :
    normalizeFrom cap cs root = some (root ++ joinPath cs) := by
  cases cs with
  | nil => simp [normalizeFrom, joinPath]
  | cons c cs =>
    have hc := h c (by simp)
    have he : root ++ appended root c ++ cs.flatMap (fun c => 92 :: c) = root ++ joinPath (c :: cs) := by
      rw [appended, if_pos hl, joinPath, List.append_assoc]
    rw [← he] at hlen ⊢
    rw [normalizeFrom_component cs hc (by rw [List.length_append] at hlen; omega)]
    exact normalizeFrom_flatMap cs (fun c hc => h c (by simp [hc])) (getLast?_appended hc) hlen

set_option maxRecDepth 20000 in
theorem not_separator_of_driveLetter {c : UInt8} (h : isDriveLetter c = true) : isPathSeparator c = false := by
  have key : ∀ c : UInt8, isDriveLetter c = true → isPathSeparator c = false := byte_forall (by decide)
  exact key c h

theorem pathRoot_drive {a : UInt8} (h : isDriveLetter a = true) (hu : toUpper a = a) (rest : Bytes) :
    pathRoot (a :: 58 :: 92 :: rest) = some ([a, 58, 92], 92 :: rest) := by
  have hs := not_separator_of_driveLetter h
  rw [pathRoot]
  simp only [hs, Bool.false_and, Bool.false_eq_true, if_false, h, hu]
  rfl

theorem pathRoot_root (rest : Bytes) (h : driveRooted (92 :: rest) = false) :
    pathRoot (92 :: rest) = some ([92], rest) := by
  match rest with
  | [] => rfl
  | [b] => rfl
  | b :: c :: tail =>
    rw [driveRooted] at h
    rw [pathRoot]
    simp only [h, Bool.false_eq_true, if_false]
    rfl

theorem pathRoot_self {root : Bytes} {comps : List Bytes} (hroot : isRoot root = true)
    (hcomps : ∀ c ∈ comps, isComponent c = true) (hd : driveRooted (root ++ joinPath comps) = false) :
    ∃ rest, pathRoot (root ++ joinPath comps) = some (root, rest) ∧ pathComponents rest [] = comps := by
  match root, hroot with
  | [a], hroot =>
    obtain rfl : a = 92 := by simpa [isRoot] using hroot
    exact ⟨joinPath comps, pathRoot_root _ hd, pathComponents_joinPath comps hcomps⟩
  | [a, b, c], hroot =>
    simp only [isRoot, Bool.and_eq_true, beq_iff_eq] at hroot
    obtain ⟨⟨⟨ha, hu⟩, rfl⟩, rfl⟩ := hroot
    refine ⟨92 :: joinPath comps, pathRoot_drive ha hu _, ?_⟩
    rw [pathComponents, if_pos (by rfl), if_pos (by rfl)]
    exact pathComponents_joinPath comps hcomps

/-- **A normalized path normalizes to itself**, unless it starts like a drive written `\X\`. -/
theorem normalize_self {cap : Nat} {p : Bytes} (h : NormalPath cap p) (hd : driveRooted p = false) :
    normalizeAbsolutePath cap p = some p := by
  obtain ⟨root, comps, hroot, hcomps, rfl, hlen⟩ := h
  have hl := getLast?_of_isRoot hroot
  have hpos : 0 < root.length := List.length_pos_of_ne_nil (by rintro rfl; cases hl)
  have hlen' : root.length < cap := by rw [List.length_append] at hlen; omega
  obtain ⟨rest, hr, hcs⟩ := pathRoot_self hroot hcomps hd
  rw [normalizeAbsolutePath, if_neg (by omega), hr]
  simp only [hlen', if_true, hcs]
  exact normalizeFrom_joinPath comps hcomps hl hlen

/-! ## The bytes of a normalized path -/

/-- A byte that may stand in a normalized path: no control, no `;`. -/
def pathByte (c : UInt8) : Bool := decide (32 ≤ c) && c != 59

set_option maxRecDepth 20000 in
theorem byte_classes : ∀ c : UInt8, (componentByteBad c = false → pathByte c = true) ∧
    (isDriveLetter c = true → pathByte c = true) ∧ (pathByte c = true → c ≠ 32 → isBlank c = false) :=
  byte_forall (by decide)

theorem pathByte_of_not_bad {c : UInt8} (h : componentByteBad c = false) : pathByte c = true := (byte_classes c).1 h

theorem pathByte_of_driveLetter {c : UInt8} (h : isDriveLetter c = true) : pathByte c = true := (byte_classes c).2.1 h

theorem isBlank_of_pathByte {c : UInt8} (h : pathByte c = true) (h32 : c ≠ 32) : isBlank c = false :=
  (byte_classes c).2.2 h h32

theorem pathByte_component {c : Bytes} (h : isComponent c = true) : c.all pathByte = true := by
  simp only [isComponent, componentBad, Bool.and_eq_true, Bool.not_eq_true', Bool.or_eq_false_iff,
    List.any_eq_false] at h
  rw [List.all_eq_true]
  intro ch hch
  exact pathByte_of_not_bad (by simpa using h.2.2 ch hch)

theorem pathByte_joinPath (cs : List Bytes) (h : ∀ c ∈ cs, isComponent c = true) : (joinPath cs).all pathByte = true := by
  cases cs with
  | nil => rfl
  | cons c cs =>
    rw [joinPath, List.all_append, pathByte_component (h c (by simp)), Bool.true_and, List.all_eq_true]
    intro ch hch
    obtain ⟨d, hd, hm⟩ := List.mem_flatMap.1 hch
    rcases List.mem_cons.1 hm with rfl | hm
    · rfl
    · exact List.all_eq_true.1 (pathByte_component (h d (by simp [hd]))) ch hm

theorem pathByte_root {root : Bytes} (h : isRoot root = true) : root.all pathByte = true := by
  match root, h with
  | [a], h =>
    obtain rfl : a = 92 := by simpa [isRoot] using h
    rfl
  | [a, b, c], h =>
    simp only [isRoot, Bool.and_eq_true, beq_iff_eq] at h
    obtain ⟨⟨⟨ha, -⟩, rfl⟩, rfl⟩ := h
    simp only [List.all_cons, pathByte_of_driveLetter ha]
    rfl

theorem pathByte_of_normalPath {cap : Nat} {p : Bytes} (h : NormalPath cap p) : ∀ c ∈ p, pathByte c = true := by
  obtain ⟨root, comps, hroot, hcomps, rfl, -⟩ := h
  rw [← List.all_eq_true, List.all_append, pathByte_root hroot, pathByte_joinPath comps hcomps]
  rfl

theorem getLast?_component {c : Bytes} (h : isComponent c = true) : ∃ l, c.getLast? = some l ∧ l ≠ 32 := by
  simp only [isComponent, componentBad, Bool.and_eq_true, Bool.not_eq_true', Bool.or_eq_false_iff,
    List.isEmpty_eq_false_iff] at h
  obtain ⟨⟨⟨⟨hne, -⟩, -⟩, -⟩, ⟨⟨h32, -⟩, -⟩, -⟩ := h
  rw [List.getLast?_eq_some_getLast hne] at h32 ⊢
  exact ⟨_, rfl, by rintro he; rw [he] at h32; cases h32⟩

theorem getLast?_joinPath (cs : List Bytes) (hne : cs ≠ []) (h : ∀ c ∈ cs, isComponent c = true) :
    ∃ l, (joinPath cs).getLast? = some l ∧ l ≠ 32 := by
  rcases List.eq_nil_or_concat cs with rfl | ⟨init, c, rfl⟩
  · exact absurd rfl hne
  · obtain ⟨l, hl, h32⟩ := getLast?_component (h c (by simp))
    refine ⟨l, ?_, h32⟩
    rw [List.concat_eq_append]
    cases init with
    | nil => simpa [joinPath] using hl
    | cons d init =>
      simp only [List.cons_append, joinPath, List.flatMap_append, List.flatMap_cons, List.flatMap_nil, List.append_nil]
      rw [List.getLast?_append, List.getLast?_append, List.getLast?_cons, hl]
      rfl

/-- **A normalized path ends in no blank.** -/
theorem getLast?_of_normalPath {cap : Nat} {p : Bytes} (h : NormalPath cap p) :
    ∃ l, p.getLast? = some l ∧ isBlank l = false := by
  have hb := pathByte_of_normalPath h
  obtain ⟨root, comps, hroot, hcomps, rfl, -⟩ := h
  cases comps with
  | nil =>
    refine ⟨92, ?_, rfl⟩
    rw [joinPath, List.append_nil]
    exact getLast?_of_isRoot hroot
  | cons c cs =>
    obtain ⟨l, hl, h32⟩ := getLast?_joinPath (c :: cs) (by simp) hcomps
    have hlast : (root ++ joinPath (c :: cs)).getLast? = some l := by rw [List.getLast?_append, hl]; rfl
    exact ⟨l, hlast, isBlank_of_pathByte (hb l (List.mem_of_getLast? hlast)) h32⟩

/-! ## The path rules exclude `\X\` -/

set_option maxRecDepth 20000 in
theorem pathFold_classes : ∀ c : UInt8, isPathSeparator (pathFold c) = isPathSeparator c ∧
    isDriveLetter (pathFold c) = isDriveLetter c := byte_forall (by decide)

theorem isPathSeparator_pathFold (c : UInt8) : isPathSeparator (pathFold c) = isPathSeparator c := (pathFold_classes c).1

theorem isDriveLetter_pathFold (c : UInt8) : isDriveLetter (pathFold c) = isDriveLetter c := (pathFold_classes c).2

theorem pathEqualsIgnoreCase_iff (a b : Bytes) : pathEqualsIgnoreCase a b = true ↔ a.map pathFold = b.map pathFold := by
  unfold pathEqualsIgnoreCase; rw [beq_iff_eq]

/-- A directory that is `\X` or starts with `\X\`: the directory of a path that starts like a drive. -/
def driveRootedParent : Bytes → Bool
  | [a, b] => isPathSeparator a && isDriveLetter b
  | path => driveRooted path

theorem driveRootedParent_map_pathFold (p : Bytes) : driveRootedParent (p.map pathFold) = driveRootedParent p := by
  match p with
  | [] => rfl
  | [a] => rfl
  | [a, b] => simp only [List.map_cons, List.map_nil, driveRootedParent, isPathSeparator_pathFold, isDriveLetter_pathFold]
  | a :: b :: c :: rest =>
    simp only [List.map_cons, driveRootedParent, driveRooted, isPathSeparator_pathFold, isDriveLetter_pathFold]

theorem dropWhile_map_pathFold (p : Bytes) :
    (p.map pathFold).dropWhile (fun ch => !isPathSeparator ch) =
      (p.dropWhile (fun ch => !isPathSeparator ch)).map pathFold := by
  rw [List.dropWhile_map]
  congr 1
  congr 1
  funext c
  simp only [Function.comp_apply, isPathSeparator_pathFold]

theorem parentPathText_map_pathFold (p : Bytes) :
    parentPathText (p.map pathFold) = (parentPathText p).map pathFold := by
  cases p with
  | nil => rfl
  | cons a rest =>
    simp only [List.map_cons, parentPathText, ← List.map_reverse, dropWhile_map_pathFold, List.isEmpty_map]
    split
    · rfl
    · rw [List.map_cons, List.map_dropLast]

theorem driveRootedParent_of_driveRooted {p : Bytes} (h : driveRooted p = true) :
    driveRootedParent (parentPathText p) = true := by
  match p, h with
  | a :: b :: c :: rest, h =>
    simp only [driveRooted, Bool.and_eq_true] at h
    obtain ⟨⟨ha, hb⟩, hc⟩ := h
    have hdrop : ∃ tail, ((b :: c :: rest).reverse.dropWhile (fun ch => !isPathSeparator ch)).reverse = b :: c :: tail := by
      rw [List.reverse_cons, List.reverse_cons, List.append_assoc, List.dropWhile_append]
      split
      · refine ⟨[], ?_⟩
        simp [hc]
      · exact ⟨(rest.reverse.dropWhile (fun ch => !isPathSeparator ch)).reverse, by simp⟩
    obtain ⟨tail, htail⟩ := hdrop
    simp only [parentPathText, htail, List.isEmpty_cons, Bool.false_eq_true, if_false]
    cases tail with
    | nil => simp [driveRootedParent, ha, hb]
    | cons d tail => simp [driveRootedParent, driveRooted, ha, hb, hc]

theorem head_of_startsWithIgnoreCase {path pre : Bytes} {c : UInt8} (h : startsWithIgnoreCase path (c :: pre) = true)
    (hc : isDriveLetter c = true) : ∃ a rest, path = a :: rest ∧ isDriveLetter a = true := by
  rw [startsWithIgnoreCase, Bool.and_eq_true, pathEqualsIgnoreCase_iff] at h
  cases path with
  | nil => simp at h
  | cons a rest =>
    have hf : pathFold a = pathFold c := by
      have := h.2
      simp only [List.length_cons, List.take_succ_cons, List.map_cons, List.cons.injEq] at this
      exact this.1
    exact ⟨a, rest, rfl, by rw [← isDriveLetter_pathFold, hf, isDriveLetter_pathFold, hc]⟩

theorem validTarget_cases {path : Bytes} (h : validTarget path = true) :
    path.map pathFold = (ascii "\\boot\\r4os.elf").map pathFold ∨ ∃ a rest, path = a :: rest ∧ isDriveLetter a = true := by
  simp only [validTarget, Bool.or_eq_true, Bool.and_eq_true] at h
  rcases h with (((((((((((h | h) | h) | h) | h) | h) | h) | h) | h) | h) | h) | h) | h
  · exact .inl ((pathEqualsIgnoreCase_iff _ _).1 h)
  · right
    have hf := (pathEqualsIgnoreCase_iff _ _).1 h
    cases path with
    | nil => cases hf
    | cons a rest =>
      have ha : pathFold a = pathFold 67 := (List.cons.inj hf).1
      exact ⟨a, rest, rfl, by rw [← isDriveLetter_pathFold, ha]; rfl⟩
  · exact .inr (head_of_startsWithIgnoreCase h.1 rfl)
  · exact .inr (head_of_startsWithIgnoreCase h.1 rfl)
  · exact .inr (head_of_startsWithIgnoreCase h.1 rfl)
  · exact .inr (head_of_startsWithIgnoreCase h.1 rfl)
  · exact .inr (head_of_startsWithIgnoreCase h rfl)
  · exact .inr (head_of_startsWithIgnoreCase h.1 rfl)
  · exact .inr (head_of_startsWithIgnoreCase h.1 rfl)
  · exact .inr (head_of_startsWithIgnoreCase h rfl)
  · exact .inr (head_of_startsWithIgnoreCase h rfl)
  · exact .inr (head_of_startsWithIgnoreCase h rfl)
  · split at h
    · rename_i a b c _ _
      simp only [Bool.and_eq_true] at h
      exact .inr ⟨a, _, rfl, h.1.1.1⟩
    · cases h

theorem driveRootedParent_of_head {a : UInt8} {rest : Bytes} (h : isDriveLetter a = true) :
    driveRootedParent (a :: rest) = false := by
  have hs := not_separator_of_driveLetter h
  match rest with
  | [] => rfl
  | [b] => simp [driveRootedParent, hs]
  | b :: c :: tail => simp [driveRootedParent, driveRooted, hs]

theorem head_parentPathText (a : UInt8) (rest : Bytes) : ∃ tail, parentPathText (a :: rest) = a :: tail := by
  simp only [parentPathText]
  split
  · exact ⟨[], rfl⟩
  · exact ⟨_, rfl⟩

theorem driveRootedParent_of_validTarget {path : Bytes} (h : validTarget path = true) :
    driveRootedParent (parentPathText path) = false := by
  rcases validTarget_cases h with h | ⟨a, rest, rfl, ha⟩
  · rw [← driveRootedParent_map_pathFold, ← parentPathText_map_pathFold, h]
    decide
  · obtain ⟨tail, ht⟩ := head_parentPathText a rest
    rw [ht]
    exact driveRootedParent_of_head ha

/-- **No path in a valid target's directory starts like a drive.** -/
theorem driveRooted_of_sibling {target path : Bytes} (h : validTarget target = true)
    (hp : pathEqualsIgnoreCase (parentPathText target) (parentPathText path) = true) : driveRooted path = false := by
  rw [Bool.eq_false_iff]
  intro hd
  have h1 := driveRootedParent_of_driveRooted hd
  rw [← driveRootedParent_map_pathFold, ← (pathEqualsIgnoreCase_iff _ _).1 hp, driveRootedParent_map_pathFold,
    driveRootedParent_of_validTarget h] at h1
  cases h1

theorem driveRooted_of_head {a : UInt8} {rest : Bytes} (h : isDriveLetter a = true) : driveRooted (a :: rest) = false := by
  have hs := not_separator_of_driveLetter h
  match rest with
  | [] => rfl
  | [b] => rfl
  | b :: c :: tail => simp [driveRooted, hs]

theorem driveRooted_source {source : Bytes}
    (h : startsWithIgnoreCase source (ascii "C:\\R4OS\\UPDATE\\INBOX\\") = true) : driveRooted source = false := by
  obtain ⟨a, rest, rfl, ha⟩ := head_of_startsWithIgnoreCase h rfl
  exact driveRooted_of_head ha

end Journal
end R4
