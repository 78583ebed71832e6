import Mathlib.Data.List.Basic
import Mathlib.Data.List.Induction
import Mathlib.Data.List.Nodup
import Mathlib.Logic.Function.Basic
/-!
# LinkedQueue — linked lists threaded through an array of nodes

A queue is a list of indices kept in `prev`/`next` fields of a shared array, with its two ends stored elsewhere; a
chain is the singly linked form.  Several queues live in one array, so every operation comes with what it leaves alone.
-/
namespace R4
namespace LinkedQueue

/-- One node of the array: its neighbours and whatever else the array keeps beside them. -/
structure Node (ι β : Type) where
  prev : Option ι
  next : Option ι
  data : β

structure Ends (ι : Type) where
  head : Option ι
  tail : Option ι

variable {ι β : Type} [DecidableEq ι]

def setPrev (n : ι → Node ι β) (i : ι) (p : Option ι) : ι → Node ι β :=
  Function.update n i { n i with prev := p }

def setNext (n : ι → Node ι β) (i : ι) (q : Option ι) : ι → Node ι β :=
  Function.update n i { n i with next := q }

def setData (n : ι → Node ι β) (i : ι) (b : β) : ι → Node ι β :=
  Function.update n i { n i with data := b }

/-- Takes `i` out of its list; the neighbours are joined, or the end moves when there is no neighbour. -/
def unlink (n : ι → Node ι β) (e : Ends ι) (i : ι) : (ι → Node ι β) × Ends ι :=
  let prev := (n i).prev
  let next := (n i).next
  let s := match prev with
    | none => (n, { e with head := next })
    | some p => (setNext n p next, e)
  let s := match next with
    | none => (s.1, { s.2 with tail := prev })
    | some q => (setPrev s.1 q prev, s.2)
  (setNext (setPrev s.1 i none) i none, s.2)

def linkTail (n : ι → Node ι β) (e : Ends ι) (i : ι) : (ι → Node ι β) × Ends ι :=
  let n' := setNext (setPrev n i e.tail) i none
  match e.tail with
  | none => (n', { head := some i, tail := some i })
  | some t => (setNext n' t (some i), { e with tail := some i })

def linkHead (n : ι → Node ι β) (e : Ends ι) (i : ι) : (ι → Node ι β) × Ends ι :=
  let n' := setNext (setPrev n i none) i e.head
  match e.head with
  | none => (n', { head := some i, tail := some i })
  | some h => (setPrev n' h (some i), { e with head := some i })

/-! ## What one node looks like after an operation -/

theorem setPrev_prev (n : ι → Node ι β) (i j : ι) (p : Option ι) :
    (setPrev n i p j).prev = if j = i then p else (n j).prev := by
  unfold setPrev
  by_cases h : j = i
  · subst h; simp
  · simp [h]

theorem setPrev_next (n : ι → Node ι β) (i j : ι) (p : Option ι) : (setPrev n i p j).next = (n j).next := by
  unfold setPrev
  by_cases h : j = i
  · subst h; simp
  · simp [h]

theorem setPrev_data (n : ι → Node ι β) (i j : ι) (p : Option ι) : (setPrev n i p j).data = (n j).data := by
  unfold setPrev
  by_cases h : j = i
  · subst h; simp
  · simp [h]

theorem setNext_next (n : ι → Node ι β) (i j : ι) (q : Option ι) :
    (setNext n i q j).next = if j = i then q else (n j).next := by
  unfold setNext
  by_cases h : j = i
  · subst h; simp
  · simp [h]

theorem setNext_prev (n : ι → Node ι β) (i j : ι) (q : Option ι) : (setNext n i q j).prev = (n j).prev := by
  unfold setNext
  by_cases h : j = i
  · subst h; simp
  · simp [h]

theorem setNext_data (n : ι → Node ι β) (i j : ι) (q : Option ι) : (setNext n i q j).data = (n j).data := by
  unfold setNext
  by_cases h : j = i
  · subst h; simp
  · simp [h]

theorem setData_prev (n : ι → Node ι β) (i j : ι) (b : β) : (setData n i b j).prev = (n j).prev := by
  unfold setData
  by_cases h : j = i
  · subst h; simp
  · simp [h]

theorem setData_next (n : ι → Node ι β) (i j : ι) (b : β) : (setData n i b j).next = (n j).next := by
  unfold setData
  by_cases h : j = i
  · subst h; simp
  · simp [h]

theorem setData_data (n : ι → Node ι β) (i j : ι) (b : β) :
    (setData n i b j).data = if j = i then b else (n j).data := by
  unfold setData
  by_cases h : j = i
  · subst h; simp
  · simp [h]

theorem setData_self (n : ι → Node ι β) (i : ι) : setData n i (n i).data = n := Function.update_eq_self i n

theorem unlink_prev (n : ι → Node ι β) (e : Ends ι) (i j : ι) :
    ((unlink n e i).1 j).prev =
      if j = i then none else if (n i).next = some j then (n i).prev else (n j).prev := by
  unfold unlink
  cases hp : (n i).prev <;> cases hq : (n i).next <;>
    simp [setPrev_prev, setNext_prev, eq_comm (a := j)]

theorem unlink_next (n : ι → Node ι β) (e : Ends ι) (i j : ι) :
    ((unlink n e i).1 j).next =
      if j = i then none else if (n i).prev = some j then (n i).next else (n j).next := by
  unfold unlink
  cases hp : (n i).prev <;> cases hq : (n i).next <;>
    simp [setPrev_next, setNext_next, eq_comm (a := j)]

@[simp] theorem unlink_data (n : ι → Node ι β) (e : Ends ι) (i j : ι) :
    ((unlink n e i).1 j).data = (n j).data := by
  unfold unlink
  cases hp : (n i).prev <;> cases hq : (n i).next <;> simp [setPrev_data, setNext_data]

theorem unlink_head (n : ι → Node ι β) (e : Ends ι) (i : ι) :
    (unlink n e i).2.head = if (n i).prev = none then (n i).next else e.head := by
  unfold unlink
  cases hp : (n i).prev <;> cases hq : (n i).next <;> simp

theorem unlink_tail (n : ι → Node ι β) (e : Ends ι) (i : ι) :
    (unlink n e i).2.tail = if (n i).next = none then (n i).prev else e.tail := by
  unfold unlink
  cases hp : (n i).prev <;> cases hq : (n i).next <;> simp

theorem linkTail_prev (n : ι → Node ι β) (e : Ends ι) (i j : ι) :
    ((linkTail n e i).1 j).prev = if j = i then e.tail else (n j).prev := by
  unfold linkTail
  cases ht : e.tail <;> simp [setPrev_prev, setNext_prev]

theorem linkTail_next (n : ι → Node ι β) (e : Ends ι) (i j : ι) :
    ((linkTail n e i).1 j).next =
      if e.tail = some j then some i else if j = i then none else (n j).next := by
  unfold linkTail
  cases ht : e.tail <;> simp [setPrev_next, setNext_next, eq_comm (a := j)]

@[simp] theorem linkTail_data (n : ι → Node ι β) (e : Ends ι) (i j : ι) :
    ((linkTail n e i).1 j).data = (n j).data := by
  unfold linkTail
  cases ht : e.tail <;> simp [setPrev_data, setNext_data]

theorem linkTail_head (n : ι → Node ι β) (e : Ends ι) (i : ι) :
    (linkTail n e i).2.head = if e.tail = none then some i else e.head := by
  unfold linkTail
  cases ht : e.tail <;> simp

@[simp] theorem linkTail_tail (n : ι → Node ι β) (e : Ends ι) (i : ι) : (linkTail n e i).2.tail = some i := by
  unfold linkTail
  cases ht : e.tail <;> simp

theorem linkHead_prev (n : ι → Node ι β) (e : Ends ι) (i j : ι) :
    ((linkHead n e i).1 j).prev =
      if e.head = some j then some i else if j = i then none else (n j).prev := by
  unfold linkHead
  cases ht : e.head <;> simp [setPrev_prev, setNext_prev, eq_comm (a := j)]

theorem linkHead_next (n : ι → Node ι β) (e : Ends ι) (i j : ι) :
    ((linkHead n e i).1 j).next = if j = i then e.head else (n j).next := by
  unfold linkHead
  cases ht : e.head <;> simp [setPrev_next, setNext_next]

@[simp] theorem linkHead_data (n : ι → Node ι β) (e : Ends ι) (i j : ι) :
    ((linkHead n e i).1 j).data = (n j).data := by
  unfold linkHead
  cases ht : e.head <;> simp [setPrev_data, setNext_data]

@[simp] theorem linkHead_head (n : ι → Node ι β) (e : Ends ι) (i : ι) : (linkHead n e i).2.head = some i := by
  unfold linkHead
  cases ht : e.head <;> simp

theorem linkHead_tail (n : ι → Node ι β) (e : Ends ι) (i : ι) :
    (linkHead n e i).2.tail = if e.head = none then some i else e.tail := by
  unfold linkHead
  cases ht : e.head <;> simp

/-! ## Queues -/

/-- **The array holds the list `l`** between the ends `e`: every member points at its neighbours in `l`. -/
structure Queue (n : ι → Node ι β) (e : Ends ι) (l : List ι) : Prop where
  head : e.head = l.head?
  tail : e.tail = l.getLast?
  nodup : l.Nodup
  links : ∀ a i b, l = a ++ i :: b → (n i).prev = a.getLast? ∧ (n i).next = b.head?

omit [DecidableEq ι] in
theorem Queue.nil (n : ι → Node ι β) : Queue n ⟨none, none⟩ [] where
  head := rfl
  tail := rfl
  nodup := List.nodup_nil
  links := fun a i b h => by cases a <;> cases h

omit [DecidableEq ι] in
theorem Queue.frame {n m : ι → Node ι β} {e : Ends ι} {l : List ι} (q : Queue n e l)
    (h : ∀ j ∈ l, (m j).prev = (n j).prev ∧ (m j).next = (n j).next) : Queue m e l where
  head := q.head
  tail := q.tail
  nodup := q.nodup
  links := fun a i b hl => by
    have hi : i ∈ l := by rw [hl]; simp
    rw [(h i hi).1, (h i hi).2]
    exact q.links a i b hl

omit [DecidableEq ι] in
theorem split_of_append_eq {a b a' b' : List ι} {j : ι} (h : a ++ b = a' ++ j :: b') :
    (∃ c, a' = a ++ c ∧ b = c ++ j :: b') ∨ (∃ c, a = a' ++ j :: c ∧ b' = c ++ b) := by
  rcases List.append_eq_append_iff.1 h with ⟨c, h1, h2⟩ | ⟨c, h1, h2⟩
  · exact .inl ⟨c, h1, h2⟩
  · cases c with
    | nil => exact .inl ⟨[], by simp [h1], by simpa using h2.symm⟩
    | cons k c =>
      simp only [List.cons_append, List.cons.injEq] at h2
      obtain ⟨rfl, rfl⟩ := h2
      exact .inr ⟨c, h1, rfl⟩

/-- **Unlinking a member** leaves the rest of the list, in order. -/
theorem Queue.unlink_mid {n : ι → Node ι β} {e : Ends ι} {a b : List ι} {i : ι} (q : Queue n e (a ++ i :: b)) :
    Queue (unlink n e i).1 (unlink n e i).2 (a ++ b) := by
  obtain ⟨hp, hq⟩ := q.links a i b rfl
  have hd := q.nodup
  simp only [List.nodup_append, List.nodup_cons, List.mem_cons, forall_eq_or_imp] at hd
  obtain ⟨hda, ⟨hib, hdb⟩, hab⟩ := hd
  refine ⟨?_, ?_, ?_, ?_⟩
  · rw [unlink_head, hp, hq, q.head]
    cases a <;> simp
  · rw [unlink_tail, hp, hq, q.tail]
    cases b using List.reverseRecOn <;> simp [List.getLast?_cons]
  · simp only [List.nodup_append]
    exact ⟨hda, hdb, fun x hx y hy => (hab x hx).2 y hy⟩
  · intro a' j b' h
    rw [unlink_prev, unlink_next, hp, hq]
    rcases split_of_append_eq h with ⟨c, rfl, rfl⟩ | ⟨c, rfl, rfl⟩
    · -- `j` stood after `i`
      obtain ⟨jp, jn⟩ := q.links (a ++ i :: c) j b' (by simp)
      have hji : j ≠ i := fun h => hib (by simp [h])
      have hja : a.getLast? ≠ some j := fun h => (hab j (List.mem_of_getLast? h)).2 j (by simp) rfl
      rw [if_neg hji, if_neg hji, if_neg hja, jn]
      refine ⟨?_, rfl⟩
      cases c with
      | nil => simp
      | cons k c =>
        have hkj : k ≠ j := fun h => by simp [h] at hdb
        rw [if_neg (by simpa using hkj), jp]
        simp [List.getLast?_cons]
    · -- `j` stood before `i`
      obtain ⟨jp, jn⟩ := q.links a' j (c ++ i :: b) (by simp)
      have hji : j ≠ i := (hab j (by simp)).1
      have hjb : b.head? ≠ some j := fun h => (hab j (by simp)).2 j (List.mem_of_head? h) rfl
      rw [if_neg hji, if_neg hji, if_neg hjb, jp]
      refine ⟨rfl, ?_⟩
      cases c using List.reverseRecOn with
      | nil => simp
      | append_singleton c k =>
        have hkj : k ≠ j := fun h => by
          rw [List.nodup_append] at hda
          have := hda.2.1
          simp [h] at this
        rw [if_neg (by simpa [List.getLast?_cons] using hkj), jn]
        cases c <;> simp

theorem Queue.unlink_mem {n : ι → Node ι β} {e : Ends ι} {l : List ι} {i : ι} (q : Queue n e l) (hi : i ∈ l) :
    Queue (unlink n e i).1 (unlink n e i).2 (l.erase i) := by
  obtain ⟨a, b, rfl⟩ := List.append_of_mem hi
  have hia : i ∉ a := fun h => (List.nodup_append.1 q.nodup).2.2 i h i (by simp) rfl
  rw [List.erase_append_right _ hia, List.erase_cons_head]
  exact q.unlink_mid

theorem Queue.unlink_other {n : ι → Node ι β} {e : Ends ι} {l : List ι} {i j : ι} (q : Queue n e l) (hi : i ∈ l)
    (hj : j ∉ l) : ((unlink n e i).1 j).prev = (n j).prev ∧ ((unlink n e i).1 j).next = (n j).next := by
  obtain ⟨a, b, rfl⟩ := List.append_of_mem hi
  obtain ⟨hp, hq⟩ := q.links a i b rfl
  have hji : j ≠ i := fun h => hj (h ▸ hi)
  rw [unlink_prev, unlink_next, hp, hq, if_neg hji, if_neg hji]
  have h1 : b.head? ≠ some j := fun h => hj (by simp [List.mem_of_head? h])
  have h2 : a.getLast? ≠ some j := fun h => hj (by simp [List.mem_of_getLast? h])
  rw [if_neg h1, if_neg h2]
  exact ⟨rfl, rfl⟩

theorem Queue.linkTail {n : ι → Node ι β} {e : Ends ι} {l : List ι} {i : ι} (q : Queue n e l) (hi : i ∉ l) :
    Queue (linkTail n e i).1 (linkTail n e i).2 (l ++ [i]) := by
  refine ⟨?_, ?_, ?_, ?_⟩
  · rw [linkTail_head, q.head, q.tail]
    cases l <;> simp
  · simp
  · simpa [List.nodup_append] using ⟨q.nodup, fun a ha h => hi (h ▸ ha)⟩
  · intro a j b h
    rw [linkTail_prev, linkTail_next, q.tail]
    rcases split_of_append_eq h with ⟨c, rfl, hc⟩ | ⟨c, rfl, rfl⟩
    · obtain ⟨rfl, rfl, rfl⟩ : c = [] ∧ i = j ∧ b = [] := by
        cases c <;> simp_all
      have : l.getLast? ≠ some i := fun h => hi (List.mem_of_getLast? h)
      simp [this]
    · obtain ⟨jp, jn⟩ := q.links a j c rfl
      have hji : j ≠ i := fun h => hi (by simp [h])
      rw [if_neg hji, if_neg hji, jp, jn]
      refine ⟨rfl, ?_⟩
      cases c using List.reverseRecOn with
      | nil => simp
      | append_singleton c k =>
        have hkj : k ≠ j := fun h => by
          have := (List.nodup_append.1 q.nodup).2.1
          simp [h] at this
        rw [if_neg (by simpa [List.getLast?_append, List.getLast?_cons] using hkj)]
        cases c <;> simp

theorem Queue.linkHead {n : ι → Node ι β} {e : Ends ι} {l : List ι} {i : ι} (q : Queue n e l) (hi : i ∉ l) :
    Queue (linkHead n e i).1 (linkHead n e i).2 (i :: l) := by
  refine ⟨?_, ?_, ?_, ?_⟩
  · simp
  · rw [linkHead_tail, q.head, q.tail]
    cases l <;> simp [List.getLast?_cons]
  · exact List.nodup_cons.2 ⟨hi, q.nodup⟩
  · intro a j b h
    rw [linkHead_prev, linkHead_next, q.head]
    cases a with
    | nil =>
      simp only [List.nil_append, List.cons.injEq] at h
      obtain ⟨rfl, rfl⟩ := h
      have : l.head? ≠ some i := fun h => hi (List.mem_of_head? h)
      simp [this]
    | cons k a =>
      simp only [List.cons_append, List.cons.injEq] at h
      obtain ⟨rfl, rfl⟩ := h
      obtain ⟨jp, jn⟩ := q.links a j b rfl
      have hji : j ≠ i := fun h => hi (by simp [h])
      rw [if_neg hji, if_neg hji, jp, jn]
      refine ⟨?_, rfl⟩
      cases a with
      | nil => simp
      | cons k' a =>
        have hkj : k' ≠ j := fun h => by
          have := q.nodup
          simp [h] at this
        rw [if_neg (by simpa using hkj)]
        simp [List.getLast?_cons]

theorem Queue.linkTail_other {n : ι → Node ι β} {e : Ends ι} {l : List ι} {i j : ι} (q : Queue n e l)
    (hij : j ≠ i) (hj : j ∉ l) :
    ((LinkedQueue.linkTail n e i).1 j).prev = (n j).prev ∧ ((LinkedQueue.linkTail n e i).1 j).next = (n j).next := by
  rw [linkTail_prev, linkTail_next, if_neg hij, if_neg hij, q.tail,
    if_neg (fun h => hj (List.mem_of_getLast? h))]
  exact ⟨rfl, rfl⟩

theorem Queue.linkHead_other {n : ι → Node ι β} {e : Ends ι} {l : List ι} {i j : ι} (q : Queue n e l)
    (hij : j ≠ i) (hj : j ∉ l) :
    ((LinkedQueue.linkHead n e i).1 j).prev = (n j).prev ∧ ((LinkedQueue.linkHead n e i).1 j).next = (n j).next := by
  rw [linkHead_prev, linkHead_next, if_neg hij, if_neg hij, q.head,
    if_neg (fun h => hj (List.mem_of_head? h))]
  exact ⟨rfl, rfl⟩

/-! ## Several queues in one array -/

section Family

variable {κ : Type} [DecidableEq κ] {n : ι → Node ι β} {ends : κ → Ends ι} {ls : κ → List ι} {i : ι}

theorem linkTail_family (h : ∀ k, Queue n (ends k) (ls k)) (hdisjoint : ∀ k k' j, j ∈ ls k → j ∈ ls k' → k = k') (k : κ)
    (hi : ∀ k, i ∉ ls k) (k' : κ) :
    Queue (linkTail n (ends k) i).1 (Function.update ends k (linkTail n (ends k) i).2 k')
      (Function.update ls k (ls k ++ [i]) k') := by
  by_cases hk : k' = k
  · subst hk
    rw [Function.update_self, Function.update_self]
    exact (h k').linkTail (hi k')
  · rw [Function.update_of_ne hk, Function.update_of_ne hk]
    refine (h k').frame (fun j hj => (h k).linkTail_other (fun hji => hi k' (hji ▸ hj)) (fun hj' => hk ?_))
    exact hdisjoint k' k j hj hj'

theorem unlink_family (h : ∀ k, Queue n (ends k) (ls k)) (hdisjoint : ∀ k k' j, j ∈ ls k → j ∈ ls k' → k = k') {k : κ}
    (hi : i ∈ ls k) (k' : κ) :
    Queue (unlink n (ends k) i).1 (Function.update ends k (unlink n (ends k) i).2 k')
      (Function.update ls k ((ls k).erase i) k') := by
  by_cases hk : k' = k
  · subst hk
    rw [Function.update_self, Function.update_self]
    exact (h k').unlink_mem hi
  · rw [Function.update_of_ne hk, Function.update_of_ne hk]
    refine (h k').frame (fun j hj => (h k).unlink_other hi (fun hj' => hk ?_))
    exact hdisjoint k' k j hj hj'

end Family

/-! ## Chains -/

/-- The singly linked list `l` that starts at `h`. -/
structure Chain (next : ι → Option ι) (h : Option ι) (l : List ι) : Prop where
  head : h = l.head?
  nodup : l.Nodup
  links : ∀ a i b, l = a ++ i :: b → next i = b.head?

omit [DecidableEq ι] in
theorem Queue.chain {n : ι → Node ι β} {e : Ends ι} {l : List ι} (q : Queue n e l) :
    Chain (fun i => (n i).next) e.head l :=
  ⟨q.head, q.nodup, fun a i b h => (q.links a i b h).2⟩

omit [DecidableEq ι] in
theorem Chain.tail {next : ι → Option ι} {h : Option ι} {i : ι} {l : List ι} (c : Chain next h (i :: l)) :
    Chain next (next i) l :=
  ⟨c.links [] i l rfl, (List.nodup_cons.1 c.nodup).2, fun a j b hl => c.links (i :: a) j b (by simp [hl])⟩

omit [DecidableEq ι] in
theorem Chain.frame {next next' : ι → Option ι} {h : Option ι} {l : List ι} (c : Chain next h l)
    (hf : ∀ j ∈ l, next' j = next j) : Chain next' h l :=
  ⟨c.head, c.nodup, fun a i b hl => by rw [hf i (by simp [hl])]; exact c.links a i b hl⟩

/-- The indices met by following `next` from `h`, at most `k` of them. -/
def walk (next : ι → Option ι) : Nat → Option ι → List ι
  | 0, _ => []
  | _ + 1, none => []
  | k + 1, some i => i :: walk next k (next i)

omit [DecidableEq ι] in
/-- **A walk along a chain meets its members**, in order and each once. -/
theorem Chain.walk_eq {next : ι → Option ι} :
    ∀ {l : List ι} {h : Option ι} {k : Nat}, Chain next h l → l.length ≤ k → walk next k h = l
  | [], h, k, c, _ => by
    have : h = none := c.head
    subst this
    cases k <;> rfl
  | i :: l, h, k, c, hk => by
    have : h = some i := c.head
    subst this
    cases k with
    | zero => simp at hk
    | succ k =>
      rw [walk, c.tail.walk_eq (by simpa using hk)]

omit [DecidableEq ι] in
theorem Chain.push {next : ι → Option ι} {h : Option ι} {l : List ι} {i : ι} [DecidableEq ι] (c : Chain next h l)
    (hi : i ∉ l) : Chain (Function.update next i h) (some i) (i :: l) := by
  refine ⟨rfl, List.nodup_cons.2 ⟨hi, c.nodup⟩, ?_⟩
  intro a j b hl
  cases a with
  | nil =>
    simp only [List.nil_append, List.cons.injEq] at hl
    obtain ⟨rfl, rfl⟩ := hl
    rw [Function.update_self, c.head]
  | cons k a =>
    simp only [List.cons_append, List.cons.injEq] at hl
    obtain ⟨rfl, rfl⟩ := hl
    rw [Function.update_of_ne (fun h => hi (by simp [h]))]
    exact c.links a j b rfl

/-- The member before `i` on the way from `cursor`: `none` when `i` is not met, `some none` when it comes first. -/
def predecessor (next : ι → Option ι) (i : ι) : Nat → Option ι → Option ι → Option (Option ι)
  | 0, _, _ => none
  | _ + 1, _, none => none
  | k + 1, prev, some c => if c = i then some prev else predecessor next i k (some c) (next c)

theorem Chain.predecessor_eq {next : ι → Option ι} {i : ι} {b : List ι} :
    ∀ {a : List ι} {h : Option ι} {k : Nat} (prev : Option ι), Chain next h (a ++ i :: b) →
      (a ++ i :: b).length ≤ k → predecessor next i k prev h = some (a.getLast?.or prev)
  | [], h, k, prev, c, hk => by
    have : h = some i := c.head
    subst this
    cases k with
    | zero => simp at hk
    | succ k => simp [predecessor]
  | j :: a, h, k, prev, c, hk => by
    have : h = some j := c.head
    subst this
    cases k with
    | zero => simp at hk
    | succ k =>
      have hji : j ≠ i := fun h => by
        have := c.nodup
        simp [h] at this
      rw [predecessor, if_neg hji, Chain.predecessor_eq (a := a) _ (Chain.tail c) (by simpa using hk)]
      simp [List.getLast?_cons]

theorem Chain.remove {next : ι → Option ι} {h : Option ι} {a b : List ι} {i : ι} (c : Chain next h (a ++ i :: b)) :
    Chain (Function.update (match a.getLast? with
        | none => next
        | some p => Function.update next p (next i)) i none)
      (match a.getLast? with
        | none => next i
        | some _ => h) (a ++ b) := by
  have hn := c.links a i b rfl
  have hd := c.nodup
  simp only [List.nodup_append, List.nodup_cons, List.mem_cons, forall_eq_or_imp] at hd
  obtain ⟨hda, ⟨hib, hdb⟩, hab⟩ := hd
  refine ⟨?_, ?_, ?_⟩
  · cases a using List.reverseRecOn with
    | nil => simpa using hn
    | append_singleton a k =>
      simp only [List.getLast?_append, List.getLast?_singleton, Option.some_or, c.head]
      cases a <;> simp
  · simp only [List.nodup_append]
    exact ⟨hda, hdb, fun x hx y hy => (hab x hx).2 y hy⟩
  · intro a' j b' hs
    rcases split_of_append_eq hs with ⟨d, rfl, rfl⟩ | ⟨d, rfl, rfl⟩
    · have hji : j ≠ i := fun h => hib (by simp [h])
      have hja : a.getLast? ≠ some j := fun h => (hab j (List.mem_of_getLast? h)).2 j (by simp) rfl
      rw [Function.update_of_ne hji]
      have hj := c.links (a ++ i :: d) j b' (by simp)
      cases hla : a.getLast? with
      | none => exact hj
      | some p =>
        rw [hla] at hja
        simp only
        rw [Function.update_of_ne (fun h => hja (by rw [h])), hj]
    · have hji : j ≠ i := (hab j (by simp)).1
      rw [Function.update_of_ne hji]
      have hj := c.links a' j (d ++ i :: b) (by simp)
      cases d using List.reverseRecOn with
      | nil => simp [hn]
      | append_singleton d k =>
        have hkj : j ≠ k := fun h => by
          have := (List.nodup_append.1 hda).2.1
          simp [h] at this
        have : (a' ++ j :: (d ++ [k])).getLast? = some k := by simp [List.getLast?_append, List.getLast?_cons]
        rw [this]
        simp only
        rw [Function.update_of_ne hkj, hj]
        cases d <;> simp

end LinkedQueue
end R4
