import Mathlib.Data.List.Chain
import R4Recovery.JournalPath
/-!
# PathSpelling — what the spellings of a path become

Three spellings of an absolute path (`C:\`, `\C\`, `\`) go through one component loop.  The first test looks at the raw
bytes: behind repeated separators or dropped dots a lone letter is a component, and in the output it reads as a drive.
-/
namespace R4
namespace Journal

/-- A root written without a drive, then a lone letter and something behind it, dots aside. -/
def looksDriven (v : Bytes) : Bool :=
  match pathRoot v with
  | some ([_], rest) =>
    match (pathComponents rest []).filter notDot with
    | [b] :: _ :: _ => isDriveLetter b
    | _ => false
  | _ => false

/-- Two separators do not meet. -/
def SeparatorsApart (p : Bytes) : Prop := p.IsChain (fun a b => ¬ (isPathSeparator a = true ∧ isPathSeparator b = true))

/-- **A well-formed path**: no separator runs, no dot or dot-dot component, and the colon behind the drive is its only
forbidden byte. -/
structure WellFormed (p : Bytes) : Prop where
  apart : SeparatorsApart p
  dots : ∀ c ∈ pathComponents p [], pathEqualsIgnoreCase c (ascii ".") = false ∧ pathEqualsIgnoreCase c (ascii "..") = false
  bytes : ∀ i (h : i < p.length), componentByteBad p[i] = true → i = 1 ∧ p[i] = 58

/-! ## The bytes of joined components -/

theorem component_parts {c : Bytes} (h : isComponent c = true) : c ≠ [] ∧ c.any isPathSeparator = false ∧
    pathEqualsIgnoreCase c (ascii ".") = false ∧ pathEqualsIgnoreCase c (ascii "..") = false ∧
    c.any componentByteBad = false := by
  simp only [isComponent, componentBad, Bool.and_eq_true, Bool.not_eq_true', Bool.or_eq_false_iff,
    List.isEmpty_eq_false_iff] at h
  exact ⟨h.1.1.1.1, h.1.1.1.2, h.1.1.2, h.1.2, h.2.2⟩

theorem separatorsApart_of_none {c : Bytes} (h : c.any isPathSeparator = false) : SeparatorsApart c := by
  induction c with
  | nil => exact .nil
  | cons a c ih =>
    rw [List.any_cons, Bool.or_eq_false_iff] at h
    refine List.IsChain.cons (ih h.2) (fun b _ hs => ?_)
    rw [h.1] at hs
    cases hs.1

theorem separatorsApart_cons {c rest : Bytes} (h : isComponent c = true) (hr : SeparatorsApart rest) :
    SeparatorsApart (92 :: c ++ rest) ∧ SeparatorsApart (c ++ rest) := by
  obtain ⟨hne, hs, -, -, -⟩ := component_parts h
  have hjoin : SeparatorsApart (c ++ rest) := by
    refine List.isChain_append.2 ⟨separatorsApart_of_none hs, hr, fun x hx y _ hxy => ?_⟩
    rw [List.any_eq_false] at hs
    exact hs x (List.mem_of_getLast? hx) hxy.1
  refine ⟨List.IsChain.cons hjoin (fun b hb hsb => ?_), hjoin⟩
  obtain ⟨a, c, rfl⟩ := List.exists_cons_of_ne_nil hne
  obtain rfl : a = b := by simpa using hb
  rw [List.any_cons, Bool.or_eq_false_iff] at hs
  rw [hs.1] at hsb
  cases hsb.2

theorem separatorsApart_flatMap (cs : List Bytes) (h : ∀ c ∈ cs, isComponent c = true) :
    SeparatorsApart (cs.flatMap (fun c => 92 :: c)) := by
  induction cs with
  | nil => exact .nil
  | cons c cs ih =>
    rw [List.flatMap_cons]
    exact (separatorsApart_cons (h c (by simp)) (ih (fun c hc => h c (by simp [hc])))).1

theorem separatorsApart_joinPath (cs : List Bytes) (h : ∀ c ∈ cs, isComponent c = true) : SeparatorsApart (92 :: joinPath cs) := by
  cases cs with
  | nil => exact .singleton _
  | cons c cs => exact separatorsApart_flatMap (c :: cs) h

theorem separatorsApart_root {root : Bytes} (hr : isRoot root = true) (cs : List Bytes) (h : ∀ c ∈ cs, isComponent c = true) :
    SeparatorsApart (root ++ joinPath cs) := by
  match root, hr with
  | [a], hr =>
    obtain rfl : a = 92 := by simpa [isRoot] using hr
    exact separatorsApart_joinPath cs h
  | [a, b, c], hr =>
    simp only [isRoot, Bool.and_eq_true, beq_iff_eq] at hr
    obtain ⟨⟨⟨ha, -⟩, rfl⟩, rfl⟩ := hr
    have hcolon : SeparatorsApart (58 :: 92 :: joinPath cs) :=
      List.IsChain.cons (separatorsApart_joinPath cs h) (fun b _ hs => by cases hs.1)
    refine List.IsChain.cons hcolon (fun b _ hs => ?_)
    rw [not_separator_of_driveLetter ha] at hs
    cases hs.1

theorem bytes_joinPath (cs : List Bytes) (h : ∀ c ∈ cs, isComponent c = true) : ∀ b ∈ joinPath cs, componentByteBad b = false := by
  have hc : ∀ c ∈ cs, ∀ b ∈ c, componentByteBad b = false := by
    intro c hc b hb
    obtain ⟨-, -, -, -, hbytes⟩ := component_parts (h c hc)
    rw [List.any_eq_false] at hbytes
    simpa using hbytes b hb
  cases cs with
  | nil => intro b hb; cases hb
  | cons c cs =>
    intro b hb
    rw [joinPath, List.mem_append, List.mem_flatMap] at hb
    rcases hb with hb | ⟨d, hd, hb⟩
    · exact hc c (by simp) b hb
    · rcases List.mem_cons.1 hb with rfl | hb
      · rfl
      · exact hc d (by simp [hd]) b hb

theorem bytes_root_joinPath (cs : List Bytes) (h : ∀ c ∈ cs, isComponent c = true) :
    ∀ b ∈ 92 :: joinPath cs, componentByteBad b = false := by
  intro b hb
  rcases List.mem_cons.1 hb with rfl | hb
  · rfl
  · exact bytes_joinPath cs h b hb

set_option maxRecDepth 20000 in
theorem componentByteBad_driveLetter {c : UInt8} (h : isDriveLetter c = true) : componentByteBad c = false := by
  have key : ∀ c : UInt8, isDriveLetter c = true → componentByteBad c = false := byte_forall (by decide)
  exact key c h

/-- **Every output is well formed.** -/
theorem wellFormed_of_normalPath {cap : Nat} {p : Bytes} (h : NormalPath cap p) : WellFormed p := by
  obtain ⟨root, cs, hr, hcs, rfl, -⟩ := h
  refine ⟨separatorsApart_root hr cs hcs, ?_, ?_⟩
  · rcases isRoot_cases hr with rfl | ⟨a, ha, rfl⟩
    · intro c hc
      rw [List.singleton_append, pathComponents, if_pos (by rfl), if_pos (by rfl), pathComponents_joinPath cs hcs] at hc
      obtain ⟨-, -, hdot, hdots, -⟩ := component_parts (hcs c hc)
      exact ⟨hdot, hdots⟩
    · intro d hd
      have hparts : pathComponents ([a, 58, 92] ++ joinPath cs) [] = [a, 58] :: cs := by
        show pathComponents ([a, 58] ++ 92 :: joinPath cs) [] = _
        rw [pathComponents_append _ _ _ (by simp [not_separator_of_driveLetter ha]; rfl), List.nil_append, pathComponents,
          if_pos (by rfl), if_neg (by simp), pathComponents_joinPath cs hcs]
      rw [hparts] at hd
      rcases List.mem_cons.1 hd with rfl | hd
      · have hcolon : pathFold 58 ≠ pathFold 46 := by decide
        constructor
        · simp [pathEqualsIgnoreCase, ascii]
        · rw [Bool.eq_false_iff]
          intro he
          have hl := congrArg (fun l => l[1]?) ((pathEqualsIgnoreCase_iff _ _).1 he)
          exact hcolon (Option.some.inj hl)
      · obtain ⟨-, -, hdot, hdots, -⟩ := component_parts (hcs d hd)
        exact ⟨hdot, hdots⟩
  · rcases isRoot_cases hr with rfl | ⟨a, ha, rfl⟩
    · intro i hi hb
      rw [bytes_root_joinPath cs hcs _ (List.getElem_mem hi)] at hb
      cases hb
    · intro i hi hb
      rcases i with _ | _ | i
      · rw [show ([a, 58, 92] ++ joinPath cs)[0] = a from rfl, componentByteBad_driveLetter ha] at hb
        cases hb
      · exact ⟨rfl, rfl⟩
      · have hi' : i < (92 :: joinPath cs).length := by simpa using hi
        rw [show ([a, 58, 92] ++ joinPath cs)[i + 2] = (92 :: joinPath cs)[i] from rfl,
          bytes_root_joinPath cs hcs _ (List.getElem_mem hi')] at hb
        cases hb

/-! ## Normalizing twice -/

theorem driveRooted_eq {cap : Nat} {v p : Bytes} (h : normalizeAbsolutePath cap v = some p) : driveRooted p = looksDriven v := by
  obtain ⟨root, rest, hroot, hr, hcs, rfl, -⟩ := normalize_parts h
  unfold looksDriven
  rw [hroot]
  rcases isRoot_cases hr with rfl | ⟨a, ha, rfl⟩
  · dsimp only
    generalize (pathComponents rest []).filter notDot = parts at hcs ⊢
    cases parts with
    | nil => rfl
    | cons c cs =>
      obtain ⟨hne, hs, -, -, -⟩ := component_parts (hcs c (by simp))
      rcases c with _ | ⟨b, _ | ⟨b', c⟩⟩
      · exact absurd rfl hne
      · cases cs with
        | nil => rfl
        | cons d cs => exact Bool.and_true _
      · rw [List.any_cons, List.any_cons, Bool.or_eq_false_iff, Bool.or_eq_false_iff] at hs
        show (isPathSeparator 92 && isDriveLetter b && isPathSeparator b') = false
        rw [hs.2.1, Bool.and_false]
  · show (isPathSeparator a && isDriveLetter 58 && isPathSeparator 92) = false
    rw [not_separator_of_driveLetter ha]
    rfl

theorem normalize_driveRooted {cap : Nat} {p : Bytes} (hd : driveRooted p = true) : normalizeAbsolutePath cap p ≠ some p := by
  intro h
  have hd' := driveRooted_eq h
  rw [hd] at hd'
  unfold looksDriven at hd'
  obtain ⟨a, b, c, tail, rfl⟩ := driveRooted_cons hd
  rw [driveRooted] at hd
  rw [pathRoot] at hd'
  simp only [hd, if_true] at hd'
  cases hd'

/-- **An output is well formed, and it normalizes to itself exactly when no lone first component reads as a drive.** -/
theorem normalize_idempotent (cap : Nat) (v p : Bytes) (h : normalizeAbsolutePath cap v = some p) :
    WellFormed p ∧ (normalizeAbsolutePath cap p = some p ↔ looksDriven v = false) := by
  have hp := normalPath_of_normalize h
  refine ⟨wellFormed_of_normalPath hp, ?_, fun hv => normalize_self hp ((driveRooted_eq h).trans hv)⟩
  intro hself
  by_contra hv
  exact normalize_driveRooted ((driveRooted_eq h).trans (by simpa using hv)) hself

theorem normalize_idempotent_kernel : WellFormed (ascii "\\boot\\r4os.elf") ∧
    (normalizeAbsolutePath maxPath (ascii "\\boot\\r4os.elf") = some (ascii "\\boot\\r4os.elf") ↔
      looksDriven (ascii "/./boot//r4os.elf") = false) :=
  normalize_idempotent maxPath (ascii "/./boot//r4os.elf") (ascii "\\boot\\r4os.elf") (by decide +kernel)

/-- **A repeated separator hides a drive once.** -/
theorem normalize_idempotent_fails : ∃ v p q, normalizeAbsolutePath maxPath v = some p ∧
    normalizeAbsolutePath maxPath p = some q ∧ q ≠ p :=
  ⟨ascii "\\\\D\\CONFIG.R4S", ascii "\\D\\CONFIG.R4S", ascii "D:\\CONFIG.R4S", by decide +kernel⟩

end Journal
end R4
