import Mathlib.Data.List.Basic
/-!
# PrefixCode — texts of symbols that are read one by one

A reader takes one symbol off a text, a writer gives the text of a symbol.  If the reader takes back what the writer gave,
whole texts read back; if it takes nothing else from a text of some kind, such a text is the one its symbols are written
as.
-/
namespace PrefixCode

variable {α β : Type}

/-- All symbols of a text; the fuel bounds their number. -/
def readAll (next : List β → Option (α × List β)) : Nat → List β → Option (List α)
  | _, [] => some []
  | 0, _ :: _ => none
  | fuel + 1, b :: rest =>
    match next (b :: rest) with
    | none => none
    | some (a, rest) => (readAll next fuel rest).map (a :: ·)

/-- The text of some symbols. -/
def writeAll (text : α → Option (List β)) : List α → Option (List β)
  | [] => some []
  | a :: as =>
    match text a with
    | none => none
    | some bs => (writeAll text as).map (bs ++ ·)

variable {next : List β → Option (α × List β)} {text : α → Option (List β)}

theorem readAll_cons {fuel : Nat} {b : β} {rest rest' : List β} {a : α} {as : List α} (hnext : next (b :: rest) = some (a, rest'))
    (h : readAll next (fuel + 1) (b :: rest) = some as) : ∃ as', as = a :: as' ∧ readAll next fuel rest' = some as' := by
  rw [readAll, hnext] at h
  obtain ⟨as', hrest, rfl⟩ := Option.map_eq_some_iff.1 h
  exact ⟨as', rfl, hrest⟩

theorem writeAll_cons {a : α} {as : List α} {s : List β} (h : writeAll text (a :: as) = some s) :
    ∃ bs s', text a = some bs ∧ writeAll text as = some s' ∧ s = bs ++ s' := by
  rw [writeAll] at h
  cases ha : text a with
  | none =>
    rw [ha] at h
    cases h
  | some bs =>
    rw [ha] at h
    obtain ⟨s', hrest, rfl⟩ := Option.map_eq_some_iff.1 h
    exact ⟨bs, s', rfl, hrest, rfl⟩

theorem writeAll_append : ∀ {as bs : List α} {s t : List β}, writeAll text as = some s → writeAll text bs = some t →
    writeAll text (as ++ bs) = some (s ++ t)
  | [], bs, s, t, hs, ht => by
    cases hs
    exact ht
  | a :: as, bs, s, t, hs, ht => by
    obtain ⟨sa, s', ha, hs', rfl⟩ := writeAll_cons hs
    rw [List.cons_append, writeAll, ha]
    dsimp only
    rw [writeAll_append hs' ht, Option.map_some, List.append_assoc]

/-- **What is written reads back**, with fuel for its length. -/
theorem readAll_writeAll {P : α → Prop}
    (hread : ∀ a bs rest, P a → text a = some bs → bs ≠ [] ∧ next (bs ++ rest) = some (a, rest)) :
    ∀ (as : List α) (s : List β) (fuel : Nat), (∀ a ∈ as, P a) → writeAll text as = some s → s.length ≤ fuel →
      readAll next fuel s = some as
  | [], s, fuel, _, h, _ => by
    cases h
    cases fuel <;> rfl
  | a :: as, s, fuel, hp, h, hfuel => by
    obtain ⟨bs, s', ha, hs', rfl⟩ := writeAll_cons h
    obtain ⟨hne, hnext⟩ := hread a bs s' (hp a List.mem_cons_self) ha
    obtain ⟨b, tail, rfl⟩ := List.exists_cons_of_ne_nil hne
    rw [List.length_append, List.length_cons] at hfuel
    obtain ⟨fuel, rfl⟩ := Nat.exists_eq_succ_of_ne_zero (show fuel ≠ 0 by omega)
    rw [List.cons_append] at hnext ⊢
    rw [readAll, hnext]
    dsimp only
    rw [readAll_writeAll hread as s' fuel (fun x hx => hp x (List.mem_cons_of_mem a hx)) hs' (by omega), Option.map_some]

/-- **A text of its own kind** is what its symbols are written as; the kind is that of its rests, too. -/
theorem writeAll_readAll {G : List β → Prop}
    (hwrite : ∀ s a rest, G s → next s = some (a, rest) → G rest ∧ ∃ bs, text a = some bs ∧ s = bs ++ rest) :
    ∀ (fuel : Nat) (s : List β) (as : List α), G s → readAll next fuel s = some as → writeAll text as = some s
  | fuel, [], as, _, h => by
    have : as = [] := by
      cases fuel <;> exact (Option.some.inj h).symm
    rw [this]
    rfl
  | 0, _ :: _, _, _, h => by cases h
  | fuel + 1, b :: rest, as, hgood, h => by
    cases hnext : next (b :: rest) with
    | none =>
      rw [readAll, hnext] at h
      cases h
    | some r =>
      obtain ⟨a, rest'⟩ := r
      obtain ⟨as', rfl, hrest⟩ := readAll_cons hnext h
      obtain ⟨hgood', bs, hbs, hs⟩ := hwrite _ a rest' hgood hnext
      rw [writeAll, hbs]
      dsimp only
      rw [writeAll_readAll hwrite fuel rest' as' hgood' hrest, Option.map_some, hs]

theorem readAll_forall {P : α → Prop} (hnext : ∀ s a rest, next s = some (a, rest) → P a) :
    ∀ (fuel : Nat) (s : List β) (as : List α), readAll next fuel s = some as → ∀ a ∈ as, P a
  | fuel, [], as, h => by
    have : as = [] := by
      cases fuel <;> exact (Option.some.inj h).symm
    rw [this]
    simp
  | 0, _ :: _, _, h => by cases h
  | fuel + 1, b :: rest, as, h => by
    cases hn : next (b :: rest) with
    | none =>
      rw [readAll, hn] at h
      cases h
    | some r =>
      obtain ⟨a, rest'⟩ := r
      obtain ⟨as', rfl, hrest⟩ := readAll_cons hn h
      intro x hx
      rcases List.mem_cons.1 hx with rfl | hx
      · exact hnext _ _ _ hn
      · exact readAll_forall hnext fuel rest' as' hrest x hx

end PrefixCode
