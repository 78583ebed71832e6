import R4Recovery.Installation
/-!
# InstallationText — the manifest the tools write, read by the kernel

The kernel takes the boot paths the tools take (`validBootPath_of_bootPath`), and a version the tools take exactly when it
has no underscore (`validVersion_iff`).  A manifest with such versions parses to the layout it was written for
(`parseManifest_manifest`).
-/
namespace R4

theorem ensure_ok {ε : Type} {ok : Bool} {e : ε} {u : Unit} : ensure ok e = .ok u ↔ ok = true := by
  cases ok <;> simp [ensure]

theorem ensure_bind {ε α : Type} {ok : Bool} {e : ε} {f : Unit → Except ε α} (h : ok = true) : (ensure ok e >>= f) = f () := by
  rw [h]
  rfl

theorem ok_bind {ε α β : Type} (a : α) (f : α → Except ε β) : (Except.ok a >>= f) = f a := rfl

namespace Installation

open Gpt (Guid)

/-- A text that is written between quotes as it is. -/
def Plain (text : Bytes) : Prop := ∀ c ∈ text, c < 0x80 ∧ Json.escapeByte c = [c]

/-! ## Versions -/

theorem unsignedFrom_digits : ∀ {text : Bytes} {n m : Nat}, unsignedFrom text n = some m →
    ∀ c ∈ text, c = 95 ∨ isDigit c = true
  | [], _, _, _ => nofun
  | c :: text, n, m, h => by
    rw [unsignedFrom] at h
    split at h
    · rename_i hc
      intro d hd
      rcases List.mem_cons.1 hd with rfl | hd
      · exact .inl hc
      · exact unsignedFrom_digits h d hd
    · split at h
      · rename_i hdig
        split at h
        · intro d hd
          rcases List.mem_cons.1 hd with rfl | hd
          · exact .inr hdig
          · exact unsignedFrom_digits h d hd
        · cases h
      · cases h

theorem parseNum_digits {text : Bytes} {n : Nat} (h : parseNum text = some n) :
    text ≠ [] ∧ ∀ c ∈ text, c = 95 ∨ isDigit c = true := by
  unfold parseNum at h
  split at h
  · cases h
  · unfold parseUnsigned at h
    split at h
    · cases h
    · rename_i hne
      exact ⟨fun hc => hne (.inl (by rw [hc]; rfl)), unsignedFrom_digits h⟩

theorem version_components {text : Bytes} (h : version text = true) : text.length ≤ 63 ∧ ∃ a b c : Bytes,
    text = a ++ 46 :: (b ++ 46 :: c) ∧ ∀ part ∈ [a, b, c], part ≠ [] ∧ ∀ ch ∈ part, ch = 95 ∨ isDigit ch = true := by
  unfold version at h
  split at h
  · cases h
  · rename_i hlen
    refine ⟨by omega, ?_⟩
    split at h
    · cases h
    · rename_i parsed hp
      unfold SemanticVersion.parse at hp
      dsimp only at hp
      split at hp
      · rename_i a b c hsplit
        obtain ⟨na, ha, hp⟩ := Option.bind_eq_some_iff.1 hp
        obtain ⟨nb, hb, hp⟩ := Option.bind_eq_some_iff.1 hp
        obtain ⟨nc, hc, hp⟩ := Option.bind_eq_some_iff.1 hp
        have hextra : text.dropWhile (fun c => c != 45 && c != 43) = [] := by
          split at hp
          · assumption
          · rw [Option.ite_none_right_eq_some] at hp
            cases hp.2
            simp at h
          · rw [Option.ite_none_right_eq_some] at hp
            cases hp.2
            simp at h
        have htext : text.takeWhile (fun c => c != 45 && c != 43) = text := by
          have := List.takeWhile_append_dropWhile (p := fun c : UInt8 => c != 45 && c != 43) (l := text)
          rwa [hextra, List.append_nil] at this
        rw [htext] at hsplit
        refine ⟨a, b, c, ?_, ?_⟩
        · have : List.intercalate [46] (text.splitOn 46) = text := List.intercalate_splitOn 46
          rw [hsplit] at this
          simpa [List.intercalate] using this.symm
        · intro part hpart
          simp only [List.mem_cons, List.not_mem_nil, or_false] at hpart
          rcases hpart with rfl | rfl | rfl
          · exact parseNum_digits ha
          · exact parseNum_digits hb
          · exact parseNum_digits hc
      · cases hp

theorem byte_checks (c : UInt8) : (c = 46 ∨ c = 95 ∨ isDigit c = true → c < 0x80 ∧ Json.escapeByte c = [c]) ∧
    ((!(decide (c < 32) || decide (126 < c) || (ascii "<>:\"\\|?*").contains c)) = true →
      (!(decide (c < 32) || c == 58 || c == 92)) = true) ∧
    (c = 47 ∨ (!(decide (c < 32) || decide (126 < c) || (ascii "<>:\"\\|?*").contains c)) = true →
      c < 0x80 ∧ Json.escapeByte c = [c]) := by
  revert c
  exact byte_forall (by decide +kernel)

theorem version_plain {text : Bytes} (h : version text = true) : Plain text := by
  obtain ⟨-, a, b, c, rfl, hparts⟩ := version_components h
  have hdigit : ∀ ch : UInt8, ch = 46 ∨ ch = 95 ∨ isDigit ch = true → ch < 0x80 ∧ Json.escapeByte ch = [ch] :=
    fun ch => (byte_checks ch).1
  intro ch hch
  refine hdigit ch ?_
  simp only [List.mem_append, List.mem_cons] at hch
  rcases hch with hm | rfl | hm | rfl | hm
  · exact .inr ((hparts a (by simp)).2 ch hm)
  · exact .inl rfl
  · exact .inr ((hparts b (by simp)).2 ch hm)
  · exact .inl rfl
  · exact .inr ((hparts c (by simp)).2 ch hm)

theorem versionFrom_cons (c : UInt8) (rest : Bytes) (dots digits : Nat) : Kernel.versionFrom (c :: rest) dots digits =
    if c = 46 then if digits = 0 then false else Kernel.versionFrom rest (dots + 1) 0
    else if isDigit c then Kernel.versionFrom rest dots (digits + 1) else false := rfl

theorem versionFrom_digits : ∀ (part rest : Bytes) (dots digits : Nat), (∀ c ∈ part, isDigit c = true) →
    Kernel.versionFrom (part ++ rest) dots digits = Kernel.versionFrom rest dots (digits + part.length)
  | [], _, _, _, _ => rfl
  | c :: part, rest, dots, digits, h => by
    have hc := h c List.mem_cons_self
    have hdot : c ≠ 46 := fun hd => by rw [hd] at hc; cases hc
    rw [List.cons_append, versionFrom_cons, if_neg hdot, if_pos hc,
      versionFrom_digits part rest dots (digits + 1) (fun d hd => h d (List.mem_cons_of_mem _ hd)), List.length_cons]
    congr 1
    omega

theorem versionFrom_dot {part : Bytes} (rest : Bytes) (dots : Nat) (hne : part ≠ []) (h : ∀ c ∈ part, isDigit c = true) :
    Kernel.versionFrom (part ++ 46 :: rest) dots 0 = Kernel.versionFrom rest (dots + 1) 0 := by
  have := List.length_pos_iff.2 hne
  rw [versionFrom_digits part _ dots 0 h, versionFrom_cons, if_pos rfl, if_neg (by omega)]

theorem versionFrom_mem : ∀ {text : Bytes} {dots digits : Nat}, Kernel.versionFrom text dots digits = true →
    ∀ c ∈ text, c = 46 ∨ isDigit c = true
  | [], _, _, _ => nofun
  | c :: text, dots, digits, h => by
    rw [versionFrom_cons] at h
    intro d hd
    split at h
    · rename_i hc
      split at h
      · cases h
      · rcases List.mem_cons.1 hd with rfl | hd
        · exact .inl hc
        · exact versionFrom_mem h d hd
    · split at h
      · rename_i hc
        rcases List.mem_cons.1 hd with rfl | hd
        · exact .inr hc
        · exact versionFrom_mem h d hd
      · cases h

/-- **Of the versions the tools take the kernel takes those without an underscore.** -/
theorem validVersion_iff {text : Bytes} (h : version text = true) : Kernel.validVersion text = true ↔ 95 ∉ text := by
  obtain ⟨hlen, a, b, c, rfl, hparts⟩ := version_components h
  unfold Kernel.validVersion
  rw [if_neg (by simp at hlen ⊢; omega)]
  constructor
  · intro hv hmem
    rcases versionFrom_mem hv 95 hmem with h46 | hdig
    · cases h46
    · cases hdig
  · intro hno
    have hdigits : ∀ part ∈ [a, b, c], part ≠ [] ∧ ∀ ch ∈ part, isDigit ch = true := by
      intro part hp
      refine ⟨(hparts part hp).1, fun ch hch => ((hparts part hp).2 ch hch).resolve_left ?_⟩
      rintro rfl
      refine hno ?_
      simp only [List.mem_cons, List.not_mem_nil, or_false] at hp
      simp only [List.mem_append, List.mem_cons]
      rcases hp with rfl | rfl | rfl
      · exact .inl hch
      · exact .inr (.inr (.inl hch))
      · exact .inr (.inr (.inr (.inr hch)))
    have ha := hdigits a (by simp)
    have hb := hdigits b (by simp)
    have hc := hdigits c (by simp)
    have hend := versionFrom_digits c [] 2 0 hc.2
    rw [List.append_nil] at hend
    have := List.length_pos_iff.2 hc.1
    rw [versionFrom_dot _ 0 ha.1 ha.2, versionFrom_dot _ 1 hb.1 hb.2, hend, Kernel.versionFrom]
    simp only [Nat.zero_add, Bool.and_eq_true, bne_iff_ne]
    exact ⟨rfl, by omega⟩

/-! ## Boot paths -/

theorem validBootPath_of_bootPath {path : Bytes} (h : bootPath path = true) : Kernel.validBootPath path = true := by
  unfold bootPath at h
  unfold Kernel.validBootPath
  rw [Bool.and_eq_true] at h ⊢
  refine ⟨h.1, List.all_eq_true.2 (fun part hp => ?_)⟩
  have hok := List.all_eq_true.1 h.2 part hp
  unfold componentOk at hok
  simp only [Bool.and_eq_true, Bool.not_eq_true', Bool.or_eq_false_iff] at hok
  have hbyte : ∀ c : UInt8, (!(decide (c < 32) || decide (126 < c) || (ascii "<>:\"\\|?*").contains c)) = true →
      (!(decide (c < 32) || c == 58 || c == 92)) = true := fun c => (byte_checks c).2.1
  rw [Bool.and_eq_true, Bool.not_eq_true', Bool.or_eq_false_iff, Bool.or_eq_false_iff]
  exact ⟨⟨⟨hok.1.1.1.1.1, hok.1.1.1.1.2⟩, hok.1.1.1.2⟩, List.all_eq_true.2 (fun c hc => hbyte c (List.all_eq_true.1 hok.2 c hc))⟩

theorem bootPath_plain {path : Bytes} (h : bootPath path = true) :
    path.length ≤ 255 ∧ Plain path := by
  unfold bootPath at h
  rw [Bool.and_eq_true] at h
  have hbyte : ∀ c : UInt8, c = 47 ∨ (!(decide (c < 32) || decide (126 < c) || (ascii "<>:\"\\|?*").contains c)) = true →
      c < 0x80 ∧ Json.escapeByte c = [c] := fun c => (byte_checks c).2.2
  have hlen : path ≠ [] ∧ path.length ≤ 255 := by simpa using h.1
  refine ⟨hlen.2, fun c hc => hbyte c ?_⟩
  have hpath : List.intercalate [47] (path.splitOn 47) = path := List.intercalate_splitOn 47
  rw [← hpath] at hc
  rcases mem_intercalate hc with h47 | ⟨part, hp, hc⟩
  · exact .inl h47
  · have hok := List.all_eq_true.1 h.2 part hp
    unfold componentOk at hok
    rw [Bool.and_eq_true] at hok
    exact .inr (List.all_eq_true.1 hok.2 c hc)

/-! ## What the manifest is written from -/

theorem hex_plain : ∀ n : Fin 16, Guid.hex.getD n 0 < 0x80 ∧ Json.escapeByte (Guid.hex.getD n 0) = [Guid.hex.getD n 0] := by
  decide

theorem formatFrom_plain : ∀ (os : List Nat) (i : Nat) (g : Guid), Plain (Guid.formatFrom os i g)
  | [], _, _ => nofun
  | d :: os, i, g => by
    have hlt := (g.toArray.getD d 0).toNat_lt
    intro c hc
    rw [Guid.formatFrom, List.mem_append, List.mem_cons, List.mem_cons] at hc
    rcases hc with hc | rfl | rfl | hc
    · split at hc
      · rw [List.mem_singleton.1 hc]
        decide
      · cases hc
    · exact hex_plain ⟨_, by omega⟩
    · exact hex_plain ⟨_, by omega⟩
    · exact formatFrom_plain os (i + 1) g c hc

theorem format_plain (g : Guid) : Plain g.format := formatFrom_plain _ _ g

theorem Plain.utf8 {text : Bytes} (h : Plain text) : utf8ValidateSlice text = true :=
  utf8ValidateSlice_ascii (fun c hc => (h c hc).1)

theorem slice_plain {text : Bytes} (h : Plain text) : slice text = .string text := by
  unfold slice
  rw [if_pos h.utf8]

theorem length_quoted : ∀ {text : Bytes}, Plain text → (Json.quoted text).length = text.length + 2
  | [], _ => rfl
  | c :: text, h => by
    have ih := length_quoted (fun d hd => h d (List.mem_cons_of_mem _ hd) : Plain text)
    unfold Json.quoted at ih ⊢
    rw [List.flatMap_cons, (h c List.mem_cons_self).2]
    simp only [List.length_cons, List.length_append, List.length_nil] at ih ⊢
    omega

theorem checkFiles_ok : ∀ {files seen : List Bytes}, checkFiles seen files = .ok () →
    (∀ file ∈ files, bootPath file = true ∧ ∀ other ∈ seen, eqlIgnoreCase file other = false) ∧
    files.Pairwise (fun a b => eqlIgnoreCase b a = false)
  | [], _, _ => ⟨nofun, .nil⟩
  | file :: files, seen, h => by
    obtain ⟨_, h1, h⟩ := Except.bind_ok.1 h
    obtain ⟨_, h2, h⟩ := Except.bind_ok.1 h
    have hpath := ensure_ok.1 h1
    have hnew := List.all_eq_true.1 (ensure_ok.1 h2)
    obtain ⟨hrest, hpair⟩ := checkFiles_ok h
    refine ⟨fun f hf => ?_, List.pairwise_cons.2 ⟨fun f hf => ?_, hpair⟩⟩
    · rcases List.mem_cons.1 hf with rfl | hf
      · exact ⟨hpath, fun other ho => by simpa using hnew other ho⟩
      · exact ⟨(hrest f hf).1, fun other ho => (hrest f hf).2 other (List.mem_append_left _ ho)⟩
    · exact (hrest f hf).2 file (List.mem_append_right _ List.mem_cons_self)

/-- What an accepted manifest was written from. -/
structure Accepted (layout : Layout) (release kernel : Bytes) (files : List Bytes) (text : Bytes) : Prop where
  releaseOk : version release = true
  kernelOk : version kernel = true
  some : files ≠ []
  few : files.length ≤ 32
  paths : ∀ file ∈ files, bootPath file = true
  distinct : files.Pairwise (fun a b => eqlIgnoreCase b a = false)
  written : text = Json.write 0 (layout.value release kernel files)

theorem manifest_ok {self : Layout} {release kernel : Bytes} {files : List Bytes} {text : Bytes}
    (h : self.manifest release kernel files = .ok text) : Accepted self release kernel files text := by
  obtain ⟨_, h1, h⟩ := Except.bind_ok.1 h
  obtain ⟨_, h2, h⟩ := Except.bind_ok.1 h
  cases h
  have h1 := ensure_ok.1 h1
  simp only [Bool.and_eq_true, Bool.not_eq_true', decide_eq_true_eq] at h1
  obtain ⟨hpaths, hpair⟩ := checkFiles_ok h2
  exact ⟨h1.1.1.1, h1.1.1.2, fun hc => (by rw [hc] at h1; cases h1.1.2), h1.2, fun f hf => (hpaths f hf).1, hpair, rfl⟩

theorem writable_number {n : Nat} (h : n < 2 ^ 64) : Json.Writable (number n) := by
  rw [number, Json.Writable]
  exact Json.isNatural_decimal h

theorem writable_slice {text : Bytes} (h : Plain text) : Json.Writable (slice text) := by
  rw [slice_plain h, Json.Writable]
  exact h.utf8

theorem keys_checks : (∀ key ∈ [ascii "partitionGuid", ascii "typeGuid", ascii "firstLba", ascii "sectorCount", ascii "schema",
      ascii "logicalSectorBytes", ascii "installationId", ascii "diskGuid", ascii "partitions", ascii "bootFiles",
      ascii "releaseVersion", ascii "kernelVersion"] ++ Role.all.map Role.name,
      utf8ValidateSlice key = true ∧ (Json.quoted key).length ≤ 20) ∧
    [ascii "partitionGuid", ascii "typeGuid", ascii "firstLba", ascii "sectorCount"].Nodup ∧
    [ascii "schema", ascii "logicalSectorBytes", ascii "installationId", ascii "diskGuid", ascii "partitions",
      ascii "bootFiles", ascii "releaseVersion", ascii "kernelVersion"].Nodup ∧ (Role.all.map Role.name).Nodup := by
  decide +kernel

theorem writable_part (a b : Guid) {range : Range} (h1 : range.first < 2 ^ 64) (h2 : range.count < 2 ^ 64) :
    Json.Writable (partValue a b range) := by
  have hkey := fun key hk => (keys_checks.1 key hk).1
  rw [partValue, Json.Writable]
  refine ⟨?_, keys_checks.2.1⟩
  simp only [Json.WritableFields]
  exact ⟨hkey _ (by simp), writable_slice (format_plain a), hkey _ (by simp), writable_slice (format_plain b),
    hkey _ (by simp), writable_number h1, hkey _ (by simp), writable_number h2, trivial⟩

theorem writable_files : ∀ {files : List Bytes}, (∀ file ∈ files, bootPath file = true) →
    Json.WritableItems (files.map slice)
  | [], _ => trivial
  | f :: files, h => by
    rw [List.map_cons, Json.WritableItems]
    exact ⟨writable_slice (bootPath_plain (h f List.mem_cons_self)).2,
      writable_files (fun g hg => h g (List.mem_cons_of_mem _ hg))⟩

/-- The ranges of a layout are numbers of 64 bits. -/
def Layout.Small (self : Layout) : Prop :=
  ∀ role, (self.ranges.get role).first < 2 ^ 64 ∧ (self.ranges.get role).count < 2 ^ 64

theorem writable_value {self : Layout} {release kernel : Bytes} {files : List Bytes} {text : Bytes}
    (h : Accepted self release kernel files text) (hs : self.Small) : Json.Writable (self.value release kernel files) := by
  have hkey := fun key hk => (keys_checks.1 key hk).1
  have hname : ∀ role ∈ Role.all, utf8ValidateSlice role.name = true :=
    fun role hr => hkey _ (List.mem_append_right _ (List.mem_map_of_mem hr))
  rw [Layout.value, Json.Writable]
  refine ⟨?_, keys_checks.2.2.1⟩
  have hrole : ∀ role, Json.Writable (self.rolePart role) := fun role => writable_part _ _ (hs role).1 (hs role).2
  simp only [Json.WritableFields, Json.Writable, Role.all, List.map_cons, List.map_nil]
  refine ⟨hkey _ (by simp), writable_number (by decide), hkey _ (by simp), writable_number (by decide), hkey _ (by simp),
    writable_slice (format_plain _), hkey _ (by simp), writable_slice (format_plain _), hkey _ (by simp),
    ⟨⟨hname _ (by decide), hrole _, hname _ (by decide), hrole _, hname _ (by decide), hrole _, hname _ (by decide), hrole _,
      hname _ (by decide), hrole _, trivial⟩, keys_checks.2.2.2⟩, hkey _ (by simp), writable_files h.paths, hkey _ (by simp),
    writable_slice (version_plain h.releaseOk), hkey _ (by simp), writable_slice (version_plain h.kernelOk), trivial⟩

/-! ## Its length -/

theorem length_write_slice {text : Bytes} (h : Plain text) (depth : Nat) :
    (Json.write depth (slice text)).length = text.length + 2 := by
  rw [slice_plain h, Json.write, length_quoted h]

theorem length_write_number {n : Nat} (h : n < 2 ^ 64) (depth : Nat) : (Json.write depth (number n)).length ≤ 20 := by
  rw [number, Json.write]
  exact length_decimal (by decide) (by omega)

theorem length_newline (depth : Nat) : (Json.newline depth).length = 2 * depth + 1 := by
  simp [Json.newline]

theorem length_writeItems : ∀ {files : List Bytes} (depth : Nat), (∀ file ∈ files, bootPath file = true) →
    (Json.writeItems depth (files.map slice)).length ≤ files.length * (2 * depth + 259)
  | [], _, _ => by simp [Json.writeItems]
  | f :: files, depth, h => by
    have ih := length_writeItems depth (fun g hg => h g (List.mem_cons_of_mem _ hg) : ∀ file ∈ files, bootPath file = true)
    obtain ⟨hlen, hp⟩ := bootPath_plain (h f List.mem_cons_self)
    rw [List.map_cons, Json.writeItems, List.length_cons, List.length_append, List.length_append, length_newline,
      length_write_slice hp, List.length_cons, Nat.add_mul]
    omega

theorem length_writeFields (depth : Nat) : ∀ fs : List (Bytes × Json.Value),
    (Json.writeFields depth fs).length =
      (fs.map (fun f => 2 * depth + 4 + (Json.quoted f.1).length + (Json.write depth f.2).length)).sum
  | [] => by simp [Json.writeFields]
  | (k, v) :: fs => by
    rw [Json.writeFields, List.map_cons, List.sum_cons, ← length_writeFields depth fs]
    simp only [List.length_cons, List.length_append, length_newline]
    omega

theorem length_object {fs : List (Bytes × Json.Value)} (h : fs ≠ []) (depth : Nat) :
    (Json.write depth (.object fs)).length = (Json.writeFields (depth + 1) fs).length + 2 * depth + 2 := by
  obtain ⟨⟨k, v⟩, fs, rfl⟩ := List.exists_cons_of_ne_nil h
  rw [Json.write, Json.writeFields]
  simp only [List.length_cons, List.length_append, length_newline, List.length_nil]
  omega

theorem length_array {vs : List Json.Value} (h : vs ≠ []) (depth : Nat) :
    (Json.write depth (.array vs)).length = (Json.writeItems (depth + 1) vs).length + 2 * depth + 2 := by
  obtain ⟨v, vs, rfl⟩ := List.exists_cons_of_ne_nil h
  rw [Json.write, Json.writeItems]
  simp only [List.length_cons, List.length_append, length_newline, List.length_nil]
  omega

theorem length_keys : ∀ key ∈ [ascii "partitionGuid", ascii "typeGuid", ascii "firstLba", ascii "sectorCount", ascii "schema",
    ascii "logicalSectorBytes", ascii "installationId", ascii "diskGuid", ascii "partitions", ascii "bootFiles",
    ascii "releaseVersion", ascii "kernelVersion"] ++ Role.all.map Role.name, (Json.quoted key).length ≤ 20 :=
  fun key hk => (keys_checks.1 key hk).2

theorem length_part (a b : Guid) {range : Range} (h1 : range.first < 2 ^ 64) (h2 : range.count < 2 ^ 64) (depth : Nat) :
    (Json.write depth (partValue a b range)).length ≤ 10 * depth + 250 := by
  have k1 := length_keys (ascii "partitionGuid") (by simp)
  have k2 := length_keys (ascii "typeGuid") (by simp)
  have k3 := length_keys (ascii "firstLba") (by simp)
  have k4 := length_keys (ascii "sectorCount") (by simp)
  have n1 := length_write_number h1 (depth + 1)
  have n2 := length_write_number h2 (depth + 1)
  rw [partValue, length_object (by simp), length_writeFields]
  simp only [List.map_cons, List.map_nil, List.sum_cons, List.sum_nil, length_write_slice (format_plain _), Guid.length_format]
  omega

theorem length_parts {self : Layout} (hs : self.Small) (depth : Nat) :
    (Json.write depth (.object (Role.all.map (fun role => (role.name, self.rolePart role))))).length ≤ 62 * depth + 1500 := by
  have k : ∀ role : Role, (Json.quoted role.name).length ≤ 20 := fun role =>
    length_keys role.name (List.mem_append_right _ (List.mem_map_of_mem (by cases role <;> decide)))
  have r : ∀ role, (Json.write (depth + 1) (self.rolePart role)).length ≤ 10 * (depth + 1) + 250 := fun role =>
    length_part _ _ (hs role).1 (hs role).2 _
  have := And.intro (k .biosboot) (And.intro (k .boot) (And.intro (k .system) (And.intro (k .recovery) (k .data))))
  have := And.intro (r .biosboot) (And.intro (r .boot) (And.intro (r .system) (And.intro (r .recovery) (r .data))))
  rw [length_object (by simp [Role.all]), length_writeFields]
  simp only [Role.all, List.map_cons, List.map_nil, List.sum_cons, List.sum_nil]
  omega

/-- **The manifest fits the kernel's limit.** -/
theorem length_manifest {self : Layout} {release kernel : Bytes} {files : List Bytes} {text : Bytes}
    (h : Accepted self release kernel files text) (hs : self.Small) : text.length ≤ Kernel.maxManifestBytes := by
  have k1 := length_keys (ascii "schema") (by simp)
  have k2 := length_keys (ascii "logicalSectorBytes") (by simp)
  have k3 := length_keys (ascii "installationId") (by simp)
  have k4 := length_keys (ascii "diskGuid") (by simp)
  have k5 := length_keys (ascii "partitions") (by simp)
  have k6 := length_keys (ascii "bootFiles") (by simp)
  have k7 := length_keys (ascii "releaseVersion") (by simp)
  have k8 := length_keys (ascii "kernelVersion") (by simp)
  have n1 := length_write_number (n := 1) (by decide) (0 + 1)
  have n2 := length_write_number (n := 512) (by decide) (0 + 1)
  have v1 := (version_components h.releaseOk).1
  have v2 := (version_components h.kernelOk).1
  have hp := length_parts hs (0 + 1)
  have hf : (Json.write (0 + 1) (.array (files.map slice))).length ≤ 8600 := by
    have hi := length_writeItems (0 + 1 + 1) h.paths
    have hfew := h.few
    rw [length_array (by simpa using h.some)]
    omega
  rw [h.written, Layout.value, length_object (by simp), length_writeFields]
  simp only [List.map_cons, List.map_nil, List.sum_cons, List.sum_nil, length_write_slice (format_plain _), Guid.length_format,
    length_write_slice (version_plain h.releaseOk), length_write_slice (version_plain h.kernelOk), Kernel.maxManifestBytes]
  omega

/-! ## What the kernel reads -/

open Kernel (field string uuid uint parsePart checkParts checkBootFiles readManifest parseManifest Part Manifest)

theorem uint_number {n : Nat} (h : n < 2 ^ 64) : uint (number n) = .ok n := by
  have hne : (decimal n).isEmpty = false := by simpa using decimal_ne_nil n
  have hall : (decimal n).all isDigit = true := List.all_eq_true.2 (decimal_digits n)
  rw [number, uint, if_neg (by simp [hne, hall]), parseDigits_decimal h]

theorem uuid_format {g : Guid} (h : g ≠ Guid.zero) : uuid (slice g.format) = .ok g := by
  rw [slice_plain (format_plain g), uuid, show string (.string g.format) = .ok g.format from rfl, ok_bind,
    Guid.kernelParse_format]
  exact ensure_bind (by simpa using h)

theorem typeGuid_expected (role : Role) : typeGuid role = Kernel.expectedType role ∧ typeGuid role ≠ Guid.zero := by
  cases role <;> decide

/-- The part of a role in the manifest. -/
def Layout.part (self : Layout) (role : Role) : Part :=
  { partitionGuid := self.ids.partitions.get role, typeGuid := typeGuid role, firstLba := (self.ranges.get role).first
    sectorCount := (self.ranges.get role).count }

/-- A range the kernel takes. -/
def Range.Fits (r : Range) : Prop := r.first ≠ 0 ∧ r.count ≠ 0 ∧ r.first + r.count < 2 ^ 64

/-- A layout as `prepare` makes it: no GUID is zero or stands twice, the ranges fit and do not overlap. -/
structure Layout.Wellformed (layout : Layout) : Prop where
  nonzero : ∀ id ∈ layout.ids.toList, id ≠ Guid.zero
  distinct : layout.ids.toList.Nodup
  fits : ∀ role, (layout.ranges.get role).Fits
  apart : layout.ranges.toList.Pairwise (fun a b => a.first + a.count ≤ b.first)

theorem Layout.Wellformed.small {self : Layout} (h : self.Wellformed) : self.Small := by
  intro role
  have := (h.fits role).2.2
  omega

theorem Layout.Wellformed.partition {self : Layout} (h : self.Wellformed) (role : Role) :
    self.ids.partitions.get role ≠ Guid.zero := by
  refine h.nonzero _ ?_
  cases role <;> simp [Identifiers.toList, PerRole.toList, PerRole.get]

theorem field_role {self : Layout} (role : Role) :
    field (.object (Role.all.map (fun role => (role.name, self.rolePart role)))) role.name = .ok (self.rolePart role) := by
  cases role <;> rfl

theorem parsePart_role {self : Layout} (h : self.Wellformed) (role : Role) :
    parsePart (.object (Role.all.map (fun role => (role.name, self.rolePart role)))) role = .ok (self.part role) := by
  obtain ⟨h0, h1, h2⟩ := h.fits role
  obtain ⟨ht, htz⟩ := typeGuid_expected role
  have f1 : field (self.rolePart role) (ascii "partitionGuid") = .ok (slice (self.ids.partitions.get role).format) := rfl
  have f2 : field (self.rolePart role) (ascii "typeGuid") = .ok (slice (typeGuid role).format) := rfl
  have f3 : field (self.rolePart role) (ascii "firstLba") = .ok (number (self.ranges.get role).first) := rfl
  have f4 : field (self.rolePart role) (ascii "sectorCount") = .ok (number (self.ranges.get role).count) := rfl
  unfold parsePart
  simp only [field_role, f1, f2, f3, f4, uuid_format (h.partition role), uuid_format htz, uint_number (h.small role).1,
    uint_number (h.small role).2, ok_bind]
  rw [ensure_bind (by simp; omega), ensure_bind (by simpa using ht)]
  rfl

theorem forM_ok {ε α : Type} {f : α → Except ε Unit} : ∀ {l : List α}, (∀ a ∈ l, f a = .ok ()) → l.forM f = .ok ()
  | [], _ => rfl
  | a :: l, h => by
    show (f a >>= fun _ => l.forM f) = _
    rw [h a List.mem_cons_self, ok_bind]
    exact forM_ok (fun b hb => h b (List.mem_cons_of_mem _ hb))

theorem checkParts_ok : ∀ {parts seen : List Part},
    (seen ++ parts).Pairwise (fun a b => a.partitionGuid ≠ b.partitionGuid ∧ a.firstLba + a.sectorCount ≤ b.firstLba) →
    checkParts seen parts = .ok ()
  | [], _, _ => rfl
  | p :: parts, seen, h => by
    have hseen : ∀ other ∈ seen, other.partitionGuid ≠ p.partitionGuid ∧ other.firstLba + other.sectorCount ≤ p.firstLba :=
      fun other ho => (List.pairwise_append.1 h).2.2 other ho p List.mem_cons_self
    rw [checkParts, forM_ok, ok_bind]
    · refine checkParts_ok ?_
      rwa [List.append_assoc, List.singleton_append]
    · intro other ho
      obtain ⟨hg, hr⟩ := hseen other ho
      rw [ensure_bind (by simpa using hg.symm)]
      exact ensure_ok.2 (by simp; omega)

theorem checkBootFiles_ok : ∀ {files seen : List Bytes}, (∀ file ∈ files, bootPath file = true) →
    (seen ++ files).Pairwise (fun a b => eqlIgnoreCase b a = false) →
    checkBootFiles (seen.map .string) (files.map .string) = .ok ()
  | [], _, _, _ => rfl
  | f :: files, seen, hpath, h => by
    have hseen : ∀ other ∈ seen, eqlIgnoreCase f other = false :=
      fun other ho => (List.pairwise_append.1 h).2.2 other ho f List.mem_cons_self
    rw [List.map_cons, checkBootFiles]
    simp only [string, ok_bind]
    rw [ensure_bind (validBootPath_of_bootPath (hpath f List.mem_cons_self)), forM_ok, ok_bind]
    · have := @checkBootFiles_ok files (seen ++ [f]) (fun g hg => hpath g (List.mem_cons_of_mem _ hg))
        (by rwa [List.append_assoc, List.singleton_append])
      rwa [List.map_append] at this
    · intro v hv
      obtain ⟨other, ho, rfl⟩ := List.mem_map.1 hv
      exact ensure_ok.2 (by rw [hseen other ho]; rfl)

/-- The manifest of a layout. -/
def Layout.read (self : Layout) : Manifest :=
  { installationId := self.ids.installation, diskGuid := self.ids.disk
    partitions :=
      { biosboot := self.part .biosboot, boot := self.part .boot, system := self.part .system, recovery := self.part .recovery
        data := self.part .data } }

theorem parts_pairwise {self : Layout} (h : self.Wellformed) : self.read.partitions.toList.Pairwise
    (fun a b => a.partitionGuid ≠ b.partitionGuid ∧ a.firstLba + a.sectorCount ≤ b.firstLba) := by
  have hids : Role.all.Pairwise (fun a b => self.ids.partitions.get a ≠ self.ids.partitions.get b) := by
    have := (List.nodup_cons.1 (List.nodup_cons.1 h.distinct).2).2
    exact List.pairwise_map.1 (show (Role.all.map self.ids.partitions.get).Pairwise (· ≠ ·) from this)
  have hranges := List.pairwise_map.1 (show (Role.all.map self.ranges.get).Pairwise _ from h.apart)
  exact (show (Role.all.map self.part).Pairwise _ from List.pairwise_map.2 (hids.and hranges))

theorem slices_eq {files : List Bytes} (h : ∀ file ∈ files, bootPath file = true) : files.map slice = files.map .string :=
  List.map_congr_left (fun f hf => slice_plain (bootPath_plain (h f hf)).2)

/-- **The kernel reads the layout from an accepted manifest, unless it does not take a version.** -/
theorem readManifest_value {self : Layout} {release kernel : Bytes} {files : List Bytes} {text : Bytes}
    (h : Accepted self release kernel files text) (hw : self.Wellformed) :
    readManifest (self.value release kernel files) =
      if 95 ∉ release ∧ 95 ∉ kernel then .ok self.read else .error .version := by
  have hi := uuid_format (hw.nonzero self.ids.installation (by simp [Identifiers.toList]))
  have hd := uuid_format (hw.nonzero self.ids.disk (by simp [Identifiers.toList]))
  have hfiles : Kernel.arrayItems (.array (files.map slice)) = some (files.map .string) := by rw [slices_eq h.paths]; rfl
  have hcount : (!(files.map Json.Value.string).isEmpty && decide ((files.map Json.Value.string).length ≤ 64)) = true := by
    have h1 := h.some
    have h2 := h.few
    simp [h1]
    omega
  have hboot := @checkBootFiles_ok files [] h.paths h.distinct
  have f1 : field (self.value release kernel files) (ascii "schema") = .ok (number 1) := rfl
  have f2 : field (self.value release kernel files) (ascii "logicalSectorBytes") = .ok (number 512) := rfl
  have f3 : field (self.value release kernel files) (ascii "installationId") = .ok (slice self.ids.installation.format) := rfl
  have f4 : field (self.value release kernel files) (ascii "diskGuid") = .ok (slice self.ids.disk.format) := rfl
  have f5 : field (self.value release kernel files) (ascii "partitions") =
    .ok (.object (Role.all.map (fun role => (role.name, self.rolePart role)))) := rfl
  have f6 : field (self.value release kernel files) (ascii "bootFiles") = .ok (.array (files.map slice)) := rfl
  have f7 : field (self.value release kernel files) (ascii "releaseVersion") = .ok (slice release) := rfl
  have f8 : field (self.value release kernel files) (ascii "kernelVersion") = .ok (slice kernel) := rfl
  have hs1 : string (slice release) = .ok release := by rw [slice_plain (version_plain h.releaseOk)]; rfl
  have hs2 : string (slice kernel) = .ok kernel := by rw [slice_plain (version_plain h.kernelOk)]; rfl
  unfold readManifest
  simp only [f1, f2, f3, f4, f5, f6, f7, f8, uint_number (by decide : 1 < 2 ^ 64), uint_number (by decide : 512 < 2 ^ 64), hi, hd,
    parsePart_role hw, ok_bind, hfiles, hs1, hs2]
  rw [ensure_bind (by decide), ensure_bind (by decide), ensure_bind (by rfl)]
  refine (congrArg (· >>= _) (checkParts_ok (parts_pairwise hw))).trans ?_
  rw [ok_bind, ensure_bind hcount]
  refine (congrArg (· >>= _) hboot).trans ?_
  rw [ok_bind]
  have h1 := validVersion_iff h.releaseOk
  have h2 := validVersion_iff h.kernelOk
  by_cases hr : Kernel.validVersion release = true
  · rw [ensure_bind hr]
    by_cases hk : Kernel.validVersion kernel = true
    · rw [ensure_bind hk, if_pos ⟨h1.1 hr, h2.1 hk⟩]
      rfl
    · rw [Bool.not_eq_true] at hk
      rw [hk, if_neg (fun hc => by rw [h2.2 hc.2] at hk; cases hk)]
      rfl
  · rw [Bool.not_eq_true] at hr
    rw [hr, if_neg (fun hc => by rw [h1.2 hc.1] at hr; cases hr)]
    rfl

/-- **The kernel parses an accepted manifest exactly when its versions have no underscore.** -/
theorem parseManifest_manifest {self : Layout} {release kernel : Bytes} {files : List Bytes} {text : Bytes}
    (h : Accepted self release kernel files text) (hw : self.Wellformed) :
    parseManifest text = if 95 ∉ release ∧ 95 ∉ kernel then .ok self.read else .error .version := by
  have hlen := length_manifest h hw.small
  have hparse := Json.parse_write (writable_value h hw.small)
  rw [← h.written] at hparse
  obtain ⟨rest, hcons⟩ : ∃ rest, text = 123 :: rest := by
    rw [h.written, Layout.value, Json.write]
    exact ⟨_, rfl⟩
  have hbom : startsWith text [0xef, 0xbb, 0xbf] = false := by rw [hcons]; rfl
  unfold parseManifest
  rw [ensure_bind (by rw [hcons] at hlen ⊢; simpa using hlen), hbom,
    if_neg Bool.false_ne_true]
  dsimp only
  rw [hparse]
  exact readManifest_value h hw

end Installation
end R4
