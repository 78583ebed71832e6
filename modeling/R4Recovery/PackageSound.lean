import R4Recovery.InstallationText
import R4Recovery.Package
/-!
# PackageSound — a package that is verified holds what its manifest lists

`verifyFiles` counts the files of the archive and looks every listed path up; as the listed paths are distinct and none of
them is a directory, the counts leave no room for another file (`covered`).
-/
namespace R4
namespace Package

/-! ## Checks -/

theorem ensure_then {α : Type} {ok : Bool} {e : Error} {x : Except Error α} {a : α} :
    (ensure ok e >>= fun _ => x) = .ok a ↔ ok = true ∧ x = .ok a := by
  rw [Except.bind_ok]
  constructor
  · rintro ⟨u, hu, hx⟩
    exact ⟨ensure_ok.1 hu, hx⟩
  · rintro ⟨hok, hx⟩
    exact ⟨(), ensure_ok.2 hok, hx⟩

theorem eachPrior_ok {α : Type} {check : List α → α → Except Error Unit} : ∀ (l prior : List α),
    eachPrior check prior l = .ok () → ∀ front x back, l = front ++ x :: back → check (prior ++ front) x = .ok ()
  | [], _, _, front, x, back, hl => by
    cases front <;> cases hl
  | y :: rest, prior, h, front, x, back, hl => by
    rw [eachPrior] at h
    obtain ⟨u, hfirst, hrest⟩ := Except.bind_ok.1 h
    cases front with
    | nil =>
      cases hl
      rw [List.append_nil]
      exact hfirst
    | cons z front =>
      obtain ⟨rfl, htail⟩ := List.cons.inj hl
      have := eachPrior_ok rest (prior ++ [y]) hrest front x back htail
      rwa [List.append_assoc] at this

theorem eachPrior_mem {α : Type} {check : List α → α → Except Error Unit} {l : List α}
    (h : eachPrior check [] l = .ok ()) {x : α}
    (hx : x ∈ l) : ∃ prior, check prior x = .ok () := by
  obtain ⟨front, back, rfl⟩ := List.append_of_mem hx
  exact ⟨[] ++ front, eachPrior_ok _ [] h front x back rfl⟩

/-- **Distinct paths**: a loop that compares each with the ones in front of it. -/
theorem eachPrior_distinct {α : Type} {check : List α → α → Except Error Unit} {path : α → Bytes} {l : List α}
    (h : eachPrior check [] l = .ok ())
    (hcheck : ∀ prior x, check prior x = .ok () → ∀ y ∈ prior, eqlIgnoreCase (path x) (path y) = false) :
    (l.map path).Pairwise (fun p q => eqlIgnoreCase p q = false) := by
  rw [List.pairwise_map, List.pairwise_iff_getElem]
  intro i j hi hj hij
  have hsplit : l = l.take j ++ l[j] :: l.drop (j + 1) := by
    rw [List.cons_getElem_drop_succ, List.take_append_drop]
  have hturn := eachPrior_ok l [] h _ _ _ hsplit
  rw [List.nil_append] at hturn
  rw [eqlIgnoreCase_symm]
  refine hcheck _ _ hturn _ ?_
  exact List.mem_take_iff_getElem.2 ⟨i, by omega, rfl⟩

theorem nodup_of_distinct {l : List Bytes} (h : l.Pairwise (fun p q => eqlIgnoreCase p q = false)) : l.Nodup := by
  refine h.imp (fun hne heq => ?_)
  rw [heq, eqlIgnoreCase_refl] at hne
  cases hne

theorem portable_file {path : Bytes} (h : portablePath path = true) : path.getLast? ≠ some 47 := by
  intro hlast
  obtain ⟨init, rfl⟩ := List.getLast?_eq_some_iff.1 hlast
  simp only [portablePath, Bool.and_eq_true, List.all_eq_true] at h
  have hparts : (init ++ [47]).splitOn 47 = init.splitOn 47 ++ [[]] := List.splitOn_append_cons_self init []
  have hempty := h.2 [] (by rw [hparts]; simp)
  cases hempty

/-! ## Unpacking -/

section Extract

variable {codec : Codec} {grants : Nat → Bool} {kind : Kind} {input : Bytes}

/-- The image of a disk holds `data`. -/
structure Holding (disk : Option SparseImage.Image) (hash : Bytes) (bytes : Nat) (data : Bytes) : Prop where
  image : ∃ image, disk = some image ∧ image.length = bytes ∧ ∀ offset len, image.source.read offset len =
    if offset + len ≤ bytes then .ok (slice data offset len) else .error .sourceBounds
  length : data.length = bytes
  hash : hash = Sha256.hash data

theorem ingest_length {pieces : List Bytes} {image done : SparseImage.Image} {bytes : Nat}
    (hinit : SparseImage.Image.init bytes = .ok image) (h : SparseImage.ingest grants pieces image = (.ok (), done)) :
    done.length = bytes := by
  obtain ⟨hold, rfl⟩ := SparseImage.holds_init hinit
  have hpending : image.pending.length < SparseImage.blockBytes := by
    rw [hold.length_pending]
    decide
  unfold SparseImage.ingest at h
  rcases SparseImage.appendAll_cases grants pieces image [] 0 hold hpending with
    ⟨-, mid, q, hrun, hmid, -, hlength⟩ | ⟨e, mid, hrun, -⟩
  · rw [Stateful.bind_run hrun] at h
    rcases SparseImage.finish_cases grants hmid with ⟨-, next, hnext, -, hlen, -⟩ | ⟨-, hnext⟩ | ⟨next, k, hnext, -⟩
    · rw [hnext] at h
      cases h
      exact hlen.trans hlength
    · rw [hnext] at h
      cases h
    · rw [hnext] at h
      cases h
  · rw [Stateful.bind_fail hrun] at h
    cases h

theorem ingest_holds {pieces : List Bytes} {image done : SparseImage.Image} {bytes : Nat}
    (hinit : SparseImage.Image.init bytes = .ok image) (h : SparseImage.ingest grants pieces image = (.ok (), done)) :
    Holding (some done) (Sha256.hash pieces.flatten) bytes pieces.flatten := by
  obtain ⟨hlen, hread, -⟩ := SparseImage.ingest_run grants pieces hinit h
  have hlength := ingest_length hinit h
  refine ⟨⟨done, rfl, hlength, fun offset len => ?_⟩, hlen, rfl⟩
  have := hread [] done.source rfl offset len
  rw [this]
  show (if offset + len ≤ done.length then _ else _) = _
  rw [hlength]
  rfl

theorem takeDisk_ok {entry : Entry} {image : SparseImage.Image} {hash : Bytes}
    (h : takeDisk codec grants input entry = .ok (image, hash)) : ∃ data, Holding (some image) hash entry.bytes data := by
  obtain ⟨-, h⟩ := ensure_then.1 h
  obtain ⟨-, h⟩ := ensure_then.1 h
  split at h
  · cases h
  · rename_i start hinit
    obtain ⟨pieces, -, h⟩ := Except.bind_ok.1 h
    split at h
    · rename_i done hingest
      cases h
      exact ⟨_, ingest_holds hinit hingest⟩
    · cases h

/-- **What is unpacked** of the entries in `done`. -/
structure Opened (kind : Kind) (done : List Entry) (u : Unpacked) : Prop where
  length : u.contents.length = done.length
  disk : ∀ e ∈ done, kind = .r4os ∧ e.name = diskName → ∃ data, Holding u.disk u.diskSha256 e.bytes data
  plain : ∀ (i : Nat) (e : Entry), done[i]? = some e → ¬ (kind = .r4os ∧ e.name = diskName) →
    ∃ data : Bytes, u.contents[i]? = some data ∧ data.length = e.bytes
  held : u.disk.isSome = true → kind = .r4os ∧ ∃ e ∈ done, e.name = diskName

theorem unpackEntry_ok {done : List Entry} {u u' : Unpacked} {entry : Entry} (hnew : ∀ e ∈ done, e.name ≠ entry.name)
    (ho : Opened kind done u) (h : unpackEntry codec grants kind input u entry = .ok u') :
    Opened kind (done ++ [entry]) u' := by
  have hold : ∀ (i : Nat) (e : Entry) (c : Bytes), (done ++ [entry])[i]? = some e → ¬ (kind = .r4os ∧ e.name = diskName) →
      (i < done.length → ∃ data : Bytes, (u.contents ++ [c])[i]? = some data ∧ data.length = e.bytes) := by
    intro i e c hi hplain hlt
    rw [List.getElem?_append_left hlt] at hi
    obtain ⟨data, hdata, hlen⟩ := ho.plain i e hi hplain
    exact ⟨data, by rw [List.getElem?_append_left (by rw [ho.length]; exact hlt)]; exact hdata, hlen⟩
  have hlast : ∀ (i : Nat) (e : Entry), (done ++ [entry])[i]? = some e → ¬ i < done.length → i = done.length ∧
      e = entry := by
    intro i e hi hge
    rw [List.getElem?_append_right (Nat.not_lt.1 hge)] at hi
    obtain ⟨hlt, he⟩ := List.getElem?_eq_some_iff.1 hi
    rw [List.length_singleton] at hlt
    exact ⟨by omega, by simpa using he.symm⟩
  unfold unpackEntry at h
  by_cases hdisk : kind = .r4os ∧ entry.name = diskName
  · rw [if_pos hdisk] at h
    obtain ⟨⟨image, hash⟩, htake, h⟩ := Except.bind_ok.1 h
    cases h
    refine ⟨by simp [ho.length], fun e he hd => ?_, fun i e hi hplain => ?_, fun _ => ⟨hdisk.1, entry, by simp, hdisk.2⟩⟩
    · rcases List.mem_append.1 he with he | he
      · exact absurd (hd.2.trans hdisk.2.symm) (hnew e he)
      · obtain rfl := List.mem_singleton.1 he
        exact takeDisk_ok htake
    · by_cases hlt : i < done.length
      · exact hold i e [] hi hplain hlt
      · obtain ⟨-, rfl⟩ := hlast i e hi hlt
        exact absurd hdisk hplain
  · rw [if_neg hdisk] at h
    obtain ⟨-, h⟩ := ensure_then.1 h
    obtain ⟨out, -, h⟩ := Except.bind_ok.1 h
    cases h
    refine ⟨by simp [ho.length], fun e he hd => ?_, fun i e hi hplain => ?_, fun hs => ?_⟩
    · rcases List.mem_append.1 he with he | he
      · exact ho.disk e he hd
      · obtain rfl := List.mem_singleton.1 he
        exact absurd hd hdisk
    · by_cases hlt : i < done.length
      · exact hold i e out.val hi hplain hlt
      · obtain ⟨rfl, rfl⟩ := hlast i e hi hlt
        exact ⟨out.val, by rw [List.getElem?_append_right (by rw [ho.length]), ho.length, Nat.sub_self]; rfl, out.property⟩
    · obtain ⟨hk, e, he, hn⟩ := ho.held hs
      exact ⟨hk, e, List.mem_append_left _ he, hn⟩

theorem unpack_ok : ∀ (rest done : List Entry) (u u' : Unpacked), ((done ++ rest).map Entry.name).Nodup →
    Opened kind done u →
    rest.foldlM (unpackEntry codec grants kind input) u = .ok u' → Opened kind (done ++ rest) u'
  | [], done, u, u', _, ho, h => by
    cases h
    rwa [List.append_nil]
  | entry :: rest, done, u, u', hnodup, ho, h => by
    rw [List.foldlM_cons] at h
    obtain ⟨mid, hentry, hrest⟩ := Except.bind_ok.1 h
    have hnew : ∀ e ∈ done, e.name ≠ entry.name := by
      intro e he heq
      rw [List.map_append, List.map_cons, List.nodup_append] at hnodup
      exact hnodup.2.2 e.name (List.mem_map_of_mem he) entry.name List.mem_cons_self heq
    have := unpack_ok rest (done ++ [entry]) mid u' (by rw [List.append_assoc]; exact hnodup)
      (unpackEntry_ok hnew ho hentry) hrest
    rwa [List.append_assoc] at this

/-- What R4ZIP says of the entries it inspects: no two have one name, and the directories are the names that end in a
slash. -/
structure Codec.Inspects (codec : Codec) : Prop where
  unique : ∀ input entries total, codec.inspect input = .ok (entries, total) → (entries.map Entry.name).Nodup
  directories : ∀ input entries total, codec.inspect input = .ok (entries, total) →
    ∀ e ∈ entries, e.directory = true ↔ e.name.getLast? = some 47

/-- An archive as `extract` leaves it. -/
structure Archive.Unpacks (a : Archive) (kind : Kind) : Prop where
  unique : (a.entries.map Entry.name).Nodup
  directories : ∀ e ∈ a.entries, e.directory = true ↔ e.name.getLast? = some 47
  opened : Opened kind a.entries { contents := a.contents, disk := a.disk, diskSha256 := a.diskSha256 }
  manifest : a.get (ascii "manifest.json") = some a.manifest

theorem extract_ok (hcodec : codec.Inspects) {a : Archive} (h : extract codec grants input kind = .ok a) :
    a.Unpacks kind := by
  obtain ⟨-, h⟩ := ensure_then.1 h
  obtain ⟨⟨entries, total⟩, hinspect, h⟩ := Except.bind_ok.1 h
  obtain ⟨-, h⟩ := ensure_then.1 h
  obtain ⟨u, hfold, h⟩ := Except.bind_ok.1 h
  have hunique := hcodec.unique input entries total hinspect
  have hempty : Opened kind [] {} := ⟨rfl, by simp, by simp, fun h => by cases h⟩
  have hopened := unpack_ok entries [] {} u hunique hempty hfold
  split at h
  · cases h
  · rename_i manifest hmanifest
    cases h
    exact ⟨hunique, hcodec.directories input entries total hinspect,
      ⟨hopened.length, hopened.disk, hopened.plain, hopened.held⟩,
      hmanifest⟩

end Extract

/-! ## Verified archives -/

section Verified

variable {a : Archive} {kind : Kind}

/-- The bytes an archive keeps of an entry: those of its buffer, or those the disk image reads. -/
def Stored (a : Archive) (e : Entry) (data : Bytes) : Prop :=
  if a.disk.isSome ∧ e.name = diskName then
    ∃ image, a.disk = some image ∧ image.length = data.length ∧ ∀ offset len, image.source.read offset len =
      if offset + len ≤ data.length then .ok (slice data offset len) else .error .sourceBounds
  else ∃ i : Nat, a.entries[i]? = some e ∧ a.contents[i]? = some data

theorem get_some {name bytes : Bytes} (h : a.get name = some bytes) : ¬ (a.disk.isSome ∧ name = diskName) ∧
    ∃ (i : Nat) (e : Entry), a.entries[i]? = some e ∧ e.name = name ∧ a.contents[i]? = some bytes := by
  unfold Archive.get lookup at h
  split at h
  · cases h
  · rename_i i hi
    split at h
    · cases h
    · rename_i hdisk
      obtain ⟨hlt, hname, -⟩ := List.findIdx?_eq_some_iff_getElem.1 hi
      refine ⟨fun hd => hdisk ?_, i, a.entries[i], List.getElem?_eq_getElem hlt, by simpa using hname, h⟩
      simp [hd.1, hd.2]

/-- **A file that is verified** is stored with the size and the digest that are listed. -/
theorem verifyFile_ok (ha : a.Unpacks kind) {prior : List File} {file : File} (h : verifyFile a prior file = .ok ()) :
    portablePath file.path = true ∧ eqlIgnoreCase file.path (ascii "manifest.json") = false ∧
    (∀ y ∈ prior, eqlIgnoreCase file.path y.path = false) ∧
    ∃ e ∈ a.entries, e.name = file.path ∧ e.bytes = file.bytes ∧ ∃ data, Stored a e data ∧ data.length = file.bytes ∧
      RecoveryState.bytesToHex (Sha256.hash data) = file.sha256 := by
  obtain ⟨hvalue, h⟩ := ensure_then.1 h
  obtain ⟨hprior, h⟩ := ensure_then.1 h
  simp only [Bool.and_eq_true, Bool.not_eq_true'] at hvalue
  refine ⟨hvalue.1.1, hvalue.1.2, fun y hy => ?_, ?_⟩
  · rw [Bool.not_eq_true', List.any_eq_false] at hprior
    simpa using hprior y hy
  split at h
  · -- the disk image
    rename_i disk hdisk
    split at hdisk
    · rename_i hpath
      obtain ⟨hlen, h⟩ := ensure_then.1 h
      have hhash := ensure_ok.1 h
      have hheld : a.disk.isSome = true := by rw [hdisk]; rfl
      obtain ⟨hkind, e, he, hname⟩ := ha.opened.held hheld
      obtain ⟨data, ⟨image, himage, hlength, hread⟩, hdata, hsha⟩ := ha.opened.disk e he ⟨hkind, hname⟩
      have hsame : image = disk := Option.some.inj (himage.symm.trans hdisk)
      have hfile : e.bytes = file.bytes := by
        rw [← hlength, hsame]
        exact (beq_iff_eq.1 hlen).symm
      refine ⟨e, he, hname.trans (beq_iff_eq.1 hpath).symm, hfile, data, ?_, hdata.trans hfile, ?_⟩
      · unfold Stored
        rw [if_pos ⟨hheld, hname⟩]
        exact ⟨image, himage, hlength.trans hdata.symm, fun offset len => by rw [hread, hdata]⟩
      · rw [← hsha]
        exact beq_iff_eq.1 hhash
    · cases hdisk
  · split at h
    · cases h
    · rename_i bytes hget
      obtain ⟨hlen, h⟩ := ensure_then.1 h
      have hhash := ensure_ok.1 h
      obtain ⟨hnot, i, e, hi, hname, hcontent⟩ := get_some hget
      have hplain : ¬ (kind = .r4os ∧ e.name = diskName) := by
        rintro ⟨hk, hn⟩
        obtain ⟨data, ⟨image, himage, -⟩, -⟩ := ha.opened.disk e (List.mem_of_getElem? hi) ⟨hk, hn⟩
        have himage : a.disk = some image := himage
        exact hnot ⟨by rw [himage]; rfl, hname.symm.trans hn⟩
      obtain ⟨data, hdata, hbytes⟩ := ha.opened.plain i e hi hplain
      obtain rfl : data = bytes := Option.some.inj (hdata.symm.trans hcontent)
      have hfile : data.length = file.bytes := beq_iff_eq.1 hlen
      refine ⟨e, List.mem_of_getElem? hi, hname, hbytes.symm.trans hfile, data, ?_, hfile, beq_iff_eq.1 hhash⟩
      unfold Stored
      rw [if_neg (by rw [hname]; exact hnot)]
      exact ⟨i, hi, hcontent⟩

/-- **An archive holds what is listed**: its files are the listed ones and the manifest, each listed one with its size and its
digest, and no two paths are alike where case does not count. -/
structure Covered (a : Archive) (files : List File) : Prop where
  names : ((a.entries.filter (fun e => !e.directory)).map Entry.name).Perm (ascii "manifest.json" :: files.map File.path)
  stored : ∀ f ∈ files, ∃ e ∈ a.entries, e.directory = false ∧ e.name = f.path ∧ e.bytes = f.bytes ∧
    ∃ data, Stored a e data ∧
    data.length = f.bytes ∧ RecoveryState.bytesToHex (Sha256.hash data) = f.sha256
  distinct : (ascii "manifest.json" :: files.map File.path).Pairwise (fun p q => eqlIgnoreCase p q = false)

/-- **Verified files**: the counts leave no room for a file that is not listed. -/
theorem covered (ha : a.Unpacks kind) {files : List File} (h : verifyFiles a files = .ok ()) : Covered a files := by
  obtain ⟨-, h⟩ := ensure_then.1 h
  obtain ⟨hcount, hfiles⟩ := ensure_then.1 h
  have hplain : ∀ e ∈ a.entries, e.name.getLast? ≠ some 47 → e.directory = false := by
    intro e he hname
    rw [← Bool.not_eq_true]
    exact fun hd => hname ((ha.directories e he).1 hd)
  have hdistinct : (ascii "manifest.json" :: files.map File.path).Pairwise (fun p q => eqlIgnoreCase p q = false) := by
    refine List.pairwise_cons.2 ⟨fun p hp => ?_, eachPrior_distinct hfiles (fun prior x hx => (verifyFile_ok ha hx).2.2.1)⟩
    obtain ⟨f, hf, rfl⟩ := List.mem_map.1 hp
    obtain ⟨prior, hturn⟩ := eachPrior_mem hfiles hf
    rw [eqlIgnoreCase_symm]
    exact (verifyFile_ok ha hturn).2.1
  have hstored : ∀ f ∈ files, ∃ e ∈ a.entries, e.directory = false ∧ e.name = f.path ∧ e.bytes = f.bytes ∧
      ∃ data, Stored a e data ∧
      data.length = f.bytes ∧ RecoveryState.bytesToHex (Sha256.hash data) = f.sha256 := by
    intro f hf
    obtain ⟨prior, hturn⟩ := eachPrior_mem hfiles hf
    obtain ⟨hportable, -, -, e, he, hname, hrest⟩ := verifyFile_ok ha hturn
    exact ⟨e, he, hplain e he (by rw [hname]; exact portable_file hportable), hname, hrest⟩
  refine ⟨?_, hstored, hdistinct⟩
  -- the listed names are distinct, are names of files, and are as many
  have hsub : (ascii "manifest.json" :: files.map File.path) ⊆
      (a.entries.filter (fun e => !e.directory)).map Entry.name := by
    intro p hp
    have hfound : ∃ e ∈ a.entries, e.directory = false ∧ e.name = p := by
      rcases List.mem_cons.1 hp with rfl | hp
      · obtain ⟨-, i, e, hi, hname, -⟩ := get_some ha.manifest
        exact ⟨e, List.mem_of_getElem? hi, hplain e (List.mem_of_getElem? hi) (by rw [hname]; decide), hname⟩
      · obtain ⟨f, hf, rfl⟩ := List.mem_map.1 hp
        obtain ⟨e, he, hd, hname, -⟩ := hstored f hf
        exact ⟨e, he, hd, hname⟩
    obtain ⟨e, he, hd, rfl⟩ := hfound
    exact List.mem_map_of_mem (List.mem_filter.2 ⟨he, by rw [hd]; rfl⟩)
  have hlength : ((a.entries.filter (fun e => !e.directory)).map Entry.name).length ≤
      (ascii "manifest.json" :: files.map File.path).length := by
    rw [List.length_map, ← List.countP_eq_length_filter, beq_iff_eq.1 hcount]
    simp
  exact ((nodup_of_distinct hdistinct).subperm hsub |>.perm_of_length_le hlength).symm

end Verified

/-! ## Manifests -/

theorem bootPath_some {path p : Bytes} (h : bootPath? path = some p) : path = ascii "BOOT/" ++ p := by
  unfold bootPath? at h
  split at h
  · rename_i hstart
    obtain rfl := Option.some.inj h
    obtain ⟨rest, rfl⟩ := List.isPrefixOf_iff_prefix.1 hstart
    rw [List.drop_left' (by decide)]
  · cases h

theorem bootFile_prior {prior : List Bytes} {path : Bytes} (h : bootFile prior path = .ok ()) :
    ∀ y ∈ prior, eqlIgnoreCase path y = false := by
  obtain ⟨-, h⟩ := ensure_then.1 h
  obtain ⟨-, h⟩ := ensure_then.1 h
  have hprior := ensure_ok.1 h
  rw [Bool.not_eq_true', List.any_eq_false] at hprior
  exact fun y hy => by simpa using hprior y hy

theorem systemFile_boot {m : SystemManifest} {file : File} {p : Bytes} (h : systemFile m file = .ok ())
    (hboot : bootPath? file.path = some p) : p ∈ m.bootFiles := by
  obtain ⟨-, h⟩ := ensure_then.1 h
  split at h
  · rename_i hother
    exfalso
    rw [bootPath_some hboot] at hother
    simp only [Bool.or_eq_true, beq_iff_eq, or_assoc] at hother
    rcases hother with hdisk | hzip | hlegal
    · cases hdisk
    · cases hzip
    · cases hlegal
  · rw [hboot] at h
    simpa using ensure_ok.1 h

/-- **One BOOT file for each of `bootFiles`**. -/
theorem boot_files {m : SystemManifest} (hvalid : validateSystem m = .ok ()) (hfiles : (m.files.map File.path).Nodup) :
    (m.files.filterMap (fun f => bootPath? f.path)).Perm m.bootFiles := by
  obtain ⟨-, h⟩ := ensure_then.1 hvalid
  obtain ⟨-, h⟩ := ensure_then.1 h
  obtain ⟨-, h⟩ := ensure_then.1 h
  obtain ⟨-, h⟩ := ensure_then.1 h
  obtain ⟨-, h⟩ := ensure_then.1 h
  obtain ⟨-, h⟩ := ensure_then.1 h
  obtain ⟨-, h⟩ := ensure_then.1 h
  obtain ⟨⟨⟩, hboot, h⟩ := Except.bind_ok.1 h
  obtain ⟨-, h⟩ := ensure_then.1 h
  obtain ⟨⟨⟩, hsystem, h⟩ := Except.bind_ok.1 h
  obtain ⟨-, h⟩ := ensure_then.1 h
  have hall := ensure_ok.1 h
  have hnodup : m.bootFiles.Nodup := by
    have : (m.bootFiles.map id).Pairwise (fun p q => eqlIgnoreCase p q = false) :=
      eachPrior_distinct hboot (fun prior x hx => bootFile_prior hx)
    rw [List.map_id] at this
    exact nodup_of_distinct this
  have hlisted : (m.files.filterMap (fun f => bootPath? f.path)).Nodup := by
    refine List.pairwise_filterMap.2 ((List.pairwise_map.1 hfiles).imp (fun {f g} hne p hf q hg heq => hne ?_))
    rw [bootPath_some hf, bootPath_some hg, heq]
  refine (List.perm_ext_iff_of_nodup hlisted hnodup).2 (fun p => ⟨fun hp => ?_, fun hp => ?_⟩)
  · obtain ⟨f, hf, hpath⟩ := List.mem_filterMap.1 hp
    obtain ⟨prior, hturn⟩ := eachPrior_mem hsystem hf
    exact systemFile_boot hturn hpath
  · have := List.all_eq_true.1 hall p hp
    obtain ⟨f, hf, hpath⟩ := List.any_eq_true.1 this
    exact List.mem_filterMap.2 ⟨f, hf, beq_iff_eq.1 hpath⟩

/-! ## Packages -/

section Prepare

variable {codec : Codec} {grants : Nat → Bool} {parseRecovery : Bytes → Except Error RecoveryManifest}
  {parseSystem : Bytes → Except Error SystemManifest}

theorem prepareRecovery_ok (hcodec : codec.Inspects) {input : Bytes} {a : Archive} {m : RecoveryManifest}
    (h : prepareRecovery codec grants parseRecovery input = .ok (a, m)) : Covered a m.files := by
  obtain ⟨archive, hextract, h⟩ := Except.bind_ok.1 h
  obtain ⟨manifest, -, h⟩ := Except.bind_ok.1 h
  obtain ⟨⟨⟩, -, h⟩ := Except.bind_ok.1 h
  obtain ⟨⟨⟩, hverify, h⟩ := Except.bind_ok.1 h
  cases h
  exact covered (extract_ok hcodec hextract) hverify

/-- **A package that is prepared**: each archive holds what its manifest lists and nothing else, and the BOOT files are those
of `bootFiles`. -/
theorem prepare_covers (hcodec : codec.Inspects) :
    (∀ input a m, prepareRecovery codec grants parseRecovery input = .ok (a, m) → Covered a m.files) ∧
    (∀ input a m ra rm, prepareSystem codec grants parseRecovery parseSystem input = .ok (a, m, ra, rm) →
      Covered a m.files ∧ Covered ra rm.files ∧ (m.files.filterMap (fun f => bootPath? f.path)).Perm m.bootFiles) := by
  refine ⟨fun input a m h => prepareRecovery_ok hcodec h, fun input a m ra rm h => ?_⟩
  obtain ⟨archive, hextract, h⟩ := Except.bind_ok.1 h
  obtain ⟨manifest, -, h⟩ := Except.bind_ok.1 h
  obtain ⟨⟨⟩, hvalid, h⟩ := Except.bind_ok.1 h
  obtain ⟨⟨⟩, hverify, h⟩ := Except.bind_ok.1 h
  split at h
  · cases h
  · rename_i recovery hget
    obtain ⟨⟨recoveryArchive, recoveryManifest⟩, hrecovery, h⟩ := Except.bind_ok.1 h
    obtain ⟨-, h⟩ := ensure_then.1 h
    cases h
    have hcovered := covered (extract_ok hcodec hextract) hverify
    exact ⟨hcovered, prepareRecovery_ok hcodec hrecovery,
      boot_files hvalid (nodup_of_distinct (List.pairwise_cons.1 hcovered.distinct).2)⟩

end Prepare

section Sample

def sampleFiles : List File :=
  [⟨ascii "Legal/NOTICE", 1, ascii "8ce86a6ae65d3692e7305e2c58ac62eebd97d3d943e093f577da25c36988246b"⟩,
   ⟨ascii "recovery.elf", 1, ascii "a9f51566bd6705f7ea6ad54bb9deb449f795582d6529a0e22207b8981233ec58"⟩,
   ⟨ascii "runtime.img", 1, ascii "8c2574892063f995fdf756bce07f46c1a5193e54cd52837ed91e32008ccf41ac"⟩]

def sampleText : Bytes :=
  ascii "\x7b\"schema\":1,\"product\":\"r4os-recovery\",\"architecture\":\"x86_64\",\"recoveryVersion\":\"0.1.19\"," ++
  ascii "\"recoveryKernelVersion\":\"0.1.98\",\"platformContract\":\x7b\"commit\":\"" ++ List.replicate 40 48 ++
  ascii "\",\"sha256\":\"" ++ List.replicate 64 48 ++
  ascii "\"\x7d,\"runtime\":\x7b\"format\":\"fat32\",\"logicalSectorBytes\":512\x7d,\"files\":[" ++
  [44].intercalate (sampleFiles.map (fun f =>
    ascii "\x7b\"path\":\"" ++ f.path ++ ascii "\",\"bytes\":1,\"sha256\":\"" ++ f.sha256 ++ ascii "\"\x7d")) ++
  ascii "],\"minimumRamBytes\":1073741824\x7d"

def sampleManifest : RecoveryManifest where
  schema := 1
  product := ascii "r4os-recovery"
  architecture := ascii "x86_64"
  recoveryVersion := ascii "0.1.19"
  recoveryKernelVersion := ascii "0.1.98"
  platformCommit := List.replicate 40 48
  platformSha256 := List.replicate 64 48
  runtimeFormat := ascii "fat32"
  logicalSectorBytes := 512
  files := sampleFiles
  minimumRamBytes := 1073741824

/-- The members of the archive, each with its CRC. -/
def sampleMembers : List (Bytes × Bytes × Nat) :=
  [(ascii "Legal/NOTICE", [78], 0x4366831a), (ascii "manifest.json", sampleText, 0xf26d4ebd),
   (ascii "recovery.elf", [69], 0xd4b45a92), (ascii "runtime.img", [82], 0x5767df55)]

/-- What the two headers of a stored member share. -/
def zipFields (name data : Bytes) (crc : Nat) : Bytes :=
  leBytes 2 20 ++ leBytes 2 0 ++ leBytes 2 0 ++ leBytes 2 0 ++ leBytes 2 33 ++ leBytes 4 crc ++ leBytes 4 data.length ++
    leBytes 4 data.length ++ leBytes 2 name.length ++ leBytes 2 0

def zipMembers : List (Bytes × Bytes × Nat) → Bytes → Bytes → Bytes
  | [], body, central => body ++ central ++ leBytes 4 0x06054b50 ++ leBytes 4 0 ++ leBytes 2 4 ++ leBytes 2 4 ++
    leBytes 4 central.length ++ leBytes 4 body.length ++ leBytes 2 0
  | (name, data, crc) :: rest, body, central =>
    zipMembers rest (body ++ leBytes 4 0x04034b50 ++ zipFields name data crc ++ name ++ data)
      (central ++ leBytes 4 0x02014b50 ++ leBytes 2 20 ++ zipFields name data crc ++ leBytes 2 0 ++ leBytes 2 0 ++
      leBytes 2 0 ++
        leBytes 4 0 ++ leBytes 4 body.length ++ name)

def sampleArchive : Bytes := zipMembers sampleMembers [] []

def sampleEntries : List Entry := sampleMembers.map (fun m => ⟨m.1, m.2.1.length, false⟩)

/-- A codec that opens the sample only. -/
def sampleCodec : Codec where
  inspect input := if input = sampleArchive then .ok (sampleEntries, (sampleEntries.map Entry.bytes).sum) else .error .codec
  unpack _ entry := match (sampleMembers.lookup entry.name) with
    | some (data, _) => if h : data.length = entry.bytes then .ok ⟨data, h⟩ else .error .codec
    | none => .error .codec
  stream _ _ := .error .codec

theorem sampleCodec_inspects : sampleCodec.Inspects := by
  have hall : (sampleEntries.map Entry.name).Nodup ∧ ∀ e ∈ sampleEntries,
      (e.directory = true ↔ e.name.getLast? = some 47) := by
    decide +kernel
  have hentries : ∀ input entries total, sampleCodec.inspect input = .ok (entries, total) → entries = sampleEntries := by
    intro input entries total h
    by_cases heq : input = sampleArchive
    · rw [show sampleCodec.inspect input = _ from if_pos heq] at h
      cases h
      rfl
    · rw [show sampleCodec.inspect input = _ from if_neg heq] at h
      cases h
  constructor
  · intro input entries total h
    rw [hentries input entries total h]
    exact hall.1
  · intro input entries total h
    rw [hentries input entries total h]
    exact hall.2

theorem sample_covered : ∃ a m, prepareRecovery sampleCodec (fun _ => true) (fun _ => .ok sampleManifest)
    sampleArchive = .ok (a, m) ∧
    Covered a m.files := by
  have hprepared : (prepareRecovery sampleCodec (fun _ => true) (fun _ => .ok sampleManifest) sampleArchive).isOk =
      true := by
    decide +kernel
  have hcovers := @prepare_covers sampleCodec (fun _ => true) (fun _ => .ok sampleManifest) (fun _ => .error .packageFormat)
    sampleCodec_inspects
  cases h : prepareRecovery sampleCodec (fun _ => true) (fun _ => .ok sampleManifest) sampleArchive with
  | error e =>
    rw [h] at hprepared
    cases hprepared
  | ok prepared => exact ⟨prepared.1, prepared.2, rfl, hcovers.1 sampleArchive prepared.1 prepared.2 h⟩

end Sample

end Package
end R4
