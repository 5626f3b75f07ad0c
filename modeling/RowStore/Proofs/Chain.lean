import Mathlib.Data.List.Chain
import Mathlib.Tactic
import RowStore.RecencyCache.Chain

/-! The nodes of a chain as a list: what unlinking a node and linking one in front do to it. -/
namespace RowStore.Chain

variable {α : Type} {c : Chain α} {i j k : Nat}

@[simp] theorem size_setNewer : (c.setNewer i j).size = c.size := Array.size_modify

@[simp] theorem size_setOlder : (c.setOlder i j).size = c.size := Array.size_modify

@[simp] theorem size_setEntry {e : Option α} : (c.setEntry i e).size = c.size := Array.size_modify

theorem olderOf_setOlder (h : i < c.size) :
    (c.setOlder i j).olderOf k = if i = k then j else c.olderOf k := by
  simp only [olderOf, setOlder, Array.getElem?_modify]
  split
  · next hik => simp [← hik, h]
  · rfl

@[simp] theorem newerOf_setOlder : (c.setOlder i j).newerOf k = c.newerOf k := by
  simp only [newerOf, setOlder, Array.getElem?_modify]
  split <;> simp [Function.comp_def]

@[simp] theorem entryAt_setOlder : (c.setOlder i j).entryAt k = c.entryAt k := by
  simp only [entryAt, setOlder, Array.getElem?_modify]
  split <;> simp [Option.bind_map]

theorem newerOf_setNewer (h : i < c.size) :
    (c.setNewer i j).newerOf k = if i = k then j else c.newerOf k := by
  simp only [newerOf, setNewer, Array.getElem?_modify]
  split
  · next hik => simp [← hik, h]
  · rfl

@[simp] theorem olderOf_setNewer : (c.setNewer i j).olderOf k = c.olderOf k := by
  simp only [olderOf, setNewer, Array.getElem?_modify]
  split <;> simp [Function.comp_def]

@[simp] theorem entryAt_setNewer : (c.setNewer i j).entryAt k = c.entryAt k := by
  simp only [entryAt, setNewer, Array.getElem?_modify]
  split <;> simp [Option.bind_map]

theorem entryAt_setEntry {e : Option α} (h : i < c.size) :
    (c.setEntry i e).entryAt k = if i = k then e else c.entryAt k := by
  simp only [entryAt, setEntry, Array.getElem?_modify]
  split
  · next hik => simp [← hik, h]
  · rfl

@[simp] theorem olderOf_setEntry {e : Option α} : (c.setEntry i e).olderOf k = c.olderOf k := by
  simp only [olderOf, setEntry, Array.getElem?_modify]
  split <;> simp [Function.comp_def]

@[simp] theorem newerOf_setEntry {e : Option α} : (c.setEntry i e).newerOf k = c.newerOf k := by
  simp only [newerOf, setEntry, Array.getElem?_modify]
  split <;> simp [Function.comp_def]

@[simp] theorem size_unlink : (c.unlink i).size = c.size := by simp [unlink]

@[simp] theorem entryAt_unlink : (c.unlink i).entryAt k = c.entryAt k := by simp [unlink]

@[simp] theorem size_linkFront : (c.linkFront i).size = c.size := by simp [linkFront]

@[simp] theorem entryAt_linkFront : (c.linkFront i).entryAt k = c.entryAt k := by simp [linkFront]

@[simp] theorem size_moveFront : (c.moveFront i).size = c.size := by
  unfold moveFront
  split <;> simp

@[simp] theorem entryAt_moveFront : (c.moveFront i).entryAt k = c.entryAt k := by
  unfold moveFront
  split <;> simp

/-- Two chains with the same entries but at one node agree on all lists without that node. -/
theorem map_entryAt {d : Chain α} {content : Option α}
    (h : ∀ j, d.entryAt j = if i = j then content else c.entryAt j) {zs : List Nat} (hi : i ∉ zs) :
    zs.map d.entryAt = zs.map c.entryAt := by
  apply List.map_congr_left
  intro j hj
  have hij : i ≠ j := fun hij => hi (hij ▸ hj)
  rw [h, if_neg hij]

/-- Two nodes that name each other as neighbours. -/
def Adjacent (c : Chain α) (i j : Nat) : Prop := c.olderOf i = j ∧ c.newerOf j = i

/-- The nodes of a list, the newest first, hang on the chain between its two ends. -/
structure Threads (c : Chain α) (hs : List Nat) : Prop where
  linked : List.IsChain c.Adjacent (front :: hs ++ [back])
  nodup : (front :: hs ++ [back]).Nodup
  bound : ∀ i ∈ front :: hs ++ [back], i < c.size

theorem threads_empty : (empty : Chain α).Threads [] where
  linked := by simp [Adjacent, empty, olderOf, newerOf, front, back]
  nodup := by decide
  bound := by simp [empty, front, back]

variable {hs xs ys : List Nat}

theorem Threads.mem_lt (h : c.Threads hs) (hi : i ∈ hs) : i < c.size := h.bound i (by simp [hi])

theorem Threads.nodup_nodes (h : c.Threads hs) : hs.Nodup := by
  have := h.nodup
  simp only [List.cons_append, List.nodup_cons, List.nodup_append] at this
  exact this.2.1

theorem Threads.back_not_mem (h : c.Threads hs) : back ∉ hs := by
  have := h.nodup
  simp only [List.cons_append, List.nodup_cons, List.nodup_append] at this
  intro hb
  exact this.2.2.2 _ hb _ (by simp) rfl

/-- The list of nodes depends on the links of these nodes alone. -/
theorem Threads.congr {d : Chain α} (h : c.Threads hs) (size : c.size ≤ d.size)
    (links : ∀ i ∈ front :: hs ++ [back],
      d.olderOf i = c.olderOf i ∧ d.newerOf i = c.newerOf i) : d.Threads hs where
  linked := h.linked.imp_of_mem_imp fun i j hi hj ⟨ho, hn⟩ =>
    ⟨(links i hi).1.trans ho, (links j hj).2.trans hn⟩
  nodup := h.nodup
  bound i hi := (h.bound i hi).trans_le size

theorem Threads.setEntry (h : c.Threads hs) (i : Nat) (e : Option α) :
    (c.setEntry i e).Threads hs :=
  h.congr (by simp) fun _ _ => ⟨olderOf_setEntry, newerOf_setEntry⟩

/-- A new node hangs on no other. -/
theorem Threads.push (h : c.Threads hs) (n : Node α) : Threads (Array.push c n) hs := by
  apply h.congr (by simp)
  intro i hi
  have hlt := h.bound i hi
  simp [olderOf, newerOf, Array.getElem?_push, hlt.ne]

/-- What is in a node beside the chain does not matter. -/
theorem Threads.replace (h : c.Threads hs) (hi : i ∉ front :: hs ++ [back]) (n : Node α) :
    Threads (Array.setIfInBounds c i n) hs := by
  apply h.congr (by simp)
  intro j hj
  have hij : i ≠ j := fun e => hi (e ▸ hj)
  simp [olderOf, newerOf, hij]

/-- Unlinking a node takes it out of the list. -/
theorem Threads.unlink (h : c.Threads (xs ++ i :: ys)) : (c.unlink i).Threads (xs ++ ys) := by
  obtain ⟨as, a, has⟩ : ∃ as a, front :: xs = as ++ [a] :=
    ⟨_, _, (List.dropLast_append_getLast (List.cons_ne_nil front xs)).symm⟩
  obtain ⟨b, bs, hbs⟩ : ∃ b bs, ys ++ [back] = b :: bs := List.exists_cons_of_ne_nil (by simp)
  have hold : front :: (xs ++ i :: ys) ++ [back] = as ++ a :: i :: b :: bs := by
    rw [← List.cons_append, has]
    simp [← hbs]
  have hnew : front :: (xs ++ ys) ++ [back] = as ++ a :: b :: bs := by
    rw [← List.cons_append, has]
    simp [← hbs]
  obtain ⟨hl, hn, hb⟩ := h
  rw [hold] at hl hn hb
  obtain ⟨hleft, ⟨hai, hia⟩, hrest⟩ := List.isChain_append_cons_cons.mp hl
  obtain ⟨⟨hib, hbi⟩, hright⟩ := List.isChain_cons_cons.mp hrest
  have ha : a < c.size := hb a (by simp)
  have hbsize : b < c.size := hb b (by simp)
  have holder : ∀ k, (c.unlink i).olderOf k = if a = k then b else c.olderOf k := by
    intro k
    rw [Chain.unlink, hia, hib, olderOf_setNewer, olderOf_setOlder ha]
  have hnewer : ∀ k, (c.unlink i).newerOf k = if b = k then a else c.newerOf k := by
    intro k
    rw [Chain.unlink, hia, hib, newerOf_setNewer (by simpa using hbsize), newerOf_setOlder]
  have hsub : (as ++ a :: b :: bs).Sublist (as ++ a :: i :: b :: bs) := by simp
  have hsplit : (as ++ [a] ++ i :: b :: bs).Nodup := by simpa using hn
  obtain ⟨-, hnr, hapart⟩ := List.nodup_append.mp hsplit
  have hileft : i ∉ as ++ [a] := fun h => hapart i h i (by simp) rfl
  have hbleft : b ∉ as ++ [a] := fun h => hapart b h b (by simp) rfl
  have hiright : i ∉ b :: bs := (List.nodup_cons.mp hnr).1
  have haright : a ∉ b :: bs := fun h => hapart a (by simp) a (List.mem_cons_of_mem _ h) rfl
  refine ⟨?_, ?_, ?_⟩
  · rw [hnew, List.isChain_append_cons_cons]
    -- Only the older link of `a` and the newer link of `b` change, and no other pair uses them.
    refine ⟨hleft.imp_of_mem_imp ?_, ?_, hright.imp_of_mem_imp ?_⟩
    · rintro x y hx hy ⟨hxy, hyx⟩
      have hyb : b ≠ y := fun e => hbleft (e ▸ hy)
      have hxa : a ≠ x := by
        intro e
        have hyi : y = i := by rw [← hxy, ← e, hai]
        exact hileft (hyi ▸ hy)
      exact ⟨by rw [holder, if_neg hxa, hxy], by rw [hnewer, if_neg hyb, hyx]⟩
    · exact ⟨by rw [holder, if_pos rfl], by rw [hnewer, if_pos rfl]⟩
    · rintro x y hx hy ⟨hxy, hyx⟩
      have hxa : a ≠ x := fun e => haright (e ▸ hx)
      have hyb : b ≠ y := by
        intro e
        have hxi : x = i := by rw [← hyx, ← e, hbi]
        exact hiright (hxi ▸ hx)
      exact ⟨by rw [holder, if_neg hxa, hxy], by rw [hnewer, if_neg hyb, hyx]⟩
  · rw [hnew]
    exact hn.sublist hsub
  · intro k hk
    rw [hnew] at hk
    rw [size_unlink]
    exact hb k (hsub.subset hk)

/-- Linking a new node in front puts it before all others. -/
theorem Threads.linkFront (h : c.Threads hs) (hi : i ∉ front :: hs ++ [back]) (hs' : i < c.size) :
    (c.linkFront i).Threads (i :: hs) := by
  obtain ⟨b, bs, hbs⟩ : ∃ b bs, hs ++ [back] = b :: bs := List.exists_cons_of_ne_nil (by simp)
  have hold : front :: hs ++ [back] = front :: b :: bs := by rw [List.cons_append, hbs]
  have hnew : front :: (i :: hs) ++ [back] = front :: i :: b :: bs := by simp [← hbs]
  obtain ⟨hl, hn, hb⟩ := h
  rw [hold] at hl hn hb hi
  obtain ⟨⟨hfb, hbf⟩, hrest⟩ := List.isChain_cons_cons.mp hl
  have hfront : front < c.size := hb _ (by simp)
  have hbsize : b < c.size := hb b (by simp)
  have hfright : front ∉ b :: bs := (List.nodup_cons.mp hn).1
  have hiright : i ∉ b :: bs := fun h => hi (List.mem_cons_of_mem _ h)
  have hif : i ≠ front := fun e => hi (e ▸ List.mem_cons_self)
  have hib : i ≠ b := fun e => hiright (e ▸ List.mem_cons_self)
  have holder : ∀ k, (c.linkFront i).olderOf k =
      if front = k then i else if i = k then b else c.olderOf k := by
    intro k
    rw [Chain.linkFront, hfb, olderOf_setOlder (by simpa using hfront), olderOf_setNewer,
      olderOf_setOlder (by simpa using hs'), olderOf_setNewer]
  have hnewer : ∀ k, (c.linkFront i).newerOf k =
      if b = k then i else if i = k then front else c.newerOf k := by
    intro k
    rw [Chain.linkFront, hfb, newerOf_setOlder, newerOf_setNewer (by simpa using hbsize),
      newerOf_setOlder, newerOf_setNewer hs']
  refine ⟨?_, ?_, ?_⟩
  · rw [hnew, List.isChain_cons_cons, List.isChain_cons_cons]
    refine ⟨?_, ?_, hrest.imp_of_mem_imp ?_⟩
    · exact ⟨by rw [holder, if_pos rfl], by rw [hnewer, if_neg hib.symm, if_pos rfl]⟩
    · exact ⟨by rw [holder, if_neg hif.symm, if_pos rfl], by rw [hnewer, if_pos rfl]⟩
    · rintro x y hx hy ⟨hxy, hyx⟩
      have hxf : front ≠ x := fun e => hfright (e ▸ hx)
      have hxi : i ≠ x := fun e => hiright (e ▸ hx)
      have hyi : i ≠ y := fun e => hiright (e ▸ hy)
      have hyb : b ≠ y := by
        intro e
        have hxf' : x = front := by rw [← hyx, ← e, hbf]
        exact hfright (hxf' ▸ hx)
      exact ⟨by rw [holder, if_neg hxf, if_neg hxi, hxy],
        by rw [hnewer, if_neg hyb, if_neg hyi, hyx]⟩
  · rw [hnew]
    exact List.nodup_cons.mpr ⟨List.not_mem_cons_of_ne_of_not_mem hif.symm hfright,
      List.nodup_cons.mpr ⟨hiright, (List.nodup_cons.mp hn).2⟩⟩
  · intro k hk
    rw [hnew] at hk
    rw [size_linkFront]
    rcases List.mem_cons.mp hk with rfl | hk
    · exact hfront
    rcases List.mem_cons.mp hk with rfl | hk
    · exact hs'
    · exact hb k (by simp [hk])

theorem Threads.olderOf_front (h : c.Threads (i :: hs)) : c.olderOf front = i :=
  (List.isChain_cons_cons.mp h.linked).1.1

/-- Moving a node to the front takes it from its place to the head of the list. -/
theorem Threads.moveFront (h : c.Threads (xs ++ i :: ys)) :
    (c.moveFront i).Threads (i :: (xs ++ ys)) := by
  unfold Chain.moveFront
  split
  · next hfront =>
    cases xs with
    | nil => exact h
    | cons x xs =>
      have hx : x = i := h.olderOf_front.symm.trans hfront
      have hn := h.nodup_nodes
      simp [hx] at hn
  · have hi := h.mem_lt (i := i) (by simp)
    have hmiddle : (front :: (xs ++ i :: ys) ++ [back]).Perm (i :: (front :: (xs ++ ys) ++ [back])) := by
      simpa using @List.perm_middle _ i (front :: xs) (ys ++ [back])
    have hnew := (List.nodup_cons.mp (hmiddle.nodup_iff.mp h.nodup)).1
    exact h.unlink.linkFront hnew (by simpa using hi)

theorem Threads.length_lt (h : c.Threads hs) : hs.length < c.size := by
  have hsub : front :: hs ++ [back] ⊆ List.range c.size :=
    fun i hi => List.mem_range.mpr (h.bound i hi)
  have := (h.nodup.subperm hsub).length_le
  simp at this
  omega

theorem walk_eq {fuel : Nat} (h : List.IsChain c.Adjacent (i :: hs ++ [back])) (hb : back ∉ hs)
    (hf : hs.length < fuel) : c.walk fuel (c.olderOf i) = hs := by
  induction hs generalizing i fuel with
  | nil =>
    have hi : c.olderOf i = back := (List.isChain_cons_cons.mp h).1.1
    rw [hi]
    cases fuel <;> rfl
  | cons j hs ih =>
    obtain ⟨⟨hij, -⟩, hrest⟩ := List.isChain_cons_cons.mp h
    cases fuel with
    | zero => simp at hf
    | succ fuel =>
      have hj : j ≠ back := fun e => hb (by simp [e])
      rw [hij, walk, if_neg hj, ih hrest (fun hm => hb (by simp [hm])) (by simpa using hf)]

/-- Walking the chain from its front visits the nodes of the list in order. -/
theorem Threads.handles_eq (h : c.Threads hs) : c.handles = hs :=
  walk_eq h.linked h.back_not_mem h.length_lt

/-- The node behind which the chain ends is the last of the list. -/
theorem Threads.newerOf_back (h : c.Threads hs) : c.newerOf back = hs.getLastD front := by
  rcases List.eq_nil_or_concat hs with rfl | ⟨xs, x, rfl⟩
  · exact (List.isChain_cons_cons.mp h.linked).1.2
  · have hl := h.linked
    rw [List.concat_eq_append, ← List.cons_append, List.append_assoc, List.singleton_append,
      List.isChain_append_cons_cons] at hl
    simpa using hl.2.1.2

end RowStore.Chain
