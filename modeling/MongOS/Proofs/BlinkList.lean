import MongOS.Verified.Run
import MongOS.Verified.Linked
import MongOS.Model.Fish

/-!
# The list of blinking characters

`mp1_malloc` takes a slot for free when its location is 0, and `mp1_ioctl_add`
accepts the location 0.  While it is not used, the slots that have been added and
not removed are the nodes of a list that ends, and `mp1_malloc` returns none of
them.

* `findLoop_chain`, `taskletLoop_chain`, `removeFindPrev_chain` — the loops on a
  list that ends.
* `list_proper_iff` — the list stays proper in exactly those runs in which no
  structure is put at location 0.
* `origin_reused` — a structure at location 0, and another one.
-/

namespace MongOS.Proofs.BlinkList

open MongOS.Model
open MongOS.Verified

@[simp] theorem setSlot_self (b : Fish) (i : Slot) (s : BlinkStruct) :
    (b.setSlot i s).blinkArray i = s := Function.update_self ..

theorem setSlot_ne (b : Fish) {i j : Slot} (s : BlinkStruct) (h : j ≠ i) :
    (b.setSlot i s).blinkArray j = b.blinkArray j := Function.update_of_ne h _ _

/-! ## Lists of slots -/

/-- The link behind a pointer. -/
def link (b : Fish) (p : Option Slot) : Option Slot :=
  p.bind fun i => (b.blinkArray i).next

/-- From the pointer `p` the list has the slots `l`, and ends. -/
def ChainFrom (b : Fish) (p : Option Slot) (l : List Slot) : Prop :=
  Linked (link b) none p (l.map some)

/-- The slots of the list from `mp1_list_head`. -/
def Chain (b : Fish) (l : List Slot) : Prop := ChainFrom b b.listHead l

theorem link_some (b : Fish) (i : Slot) :
    link b (some i) = (b.blinkArray i).next := rfl

theorem link_setSlot (b : Fish) (i : Slot) (s : BlinkStruct) :
    link (b.setSlot i s) = Function.update (link b) (some i) s.next := by
  funext p
  cases p with
  | none => rw [Function.update_of_ne (by simp)]; rfl
  | some j =>
      by_cases hj : j = i
      · subst hj
        rw [Function.update_self, link_some, setSlot_self]
      · rw [Function.update_of_ne (by simpa using hj), link_some, link_some,
          setSlot_ne b s hj]

variable {b b' : Fish} {p : Option Slot} {i : Slot} {l l' : List Slot}

namespace ChainFrom

theorem nodup (h : ChainFrom b p l) : l.Nodup :=
  List.Nodup.of_map _ (Linked.nodup h)

theorem unique (h : ChainFrom b p l) (h' : ChainFrom b p l') : l = l' :=
  (List.map_inj_right fun _ _ hij => Option.some.inj hij).1 (Linked.unique h h')

theorem start (h : ChainFrom b p []) : p = none := h

theorem head (h : ChainFrom b p (i :: l)) : p = some i := h.1

theorem tail (h : ChainFrom b p (i :: l)) :
    ChainFrom b (b.blinkArray i).next l := h.2.2

end ChainFrom

/-- Nothing that a walk along the list looks at has changed. -/
structure SameLinks (b b' : Fish) : Prop where
  head : b'.listHead = b.listHead
  next : ∀ i, (b'.blinkArray i).next = (b.blinkArray i).next
  location : ∀ i, (b'.blinkArray i).location = (b.blinkArray i).location

namespace SameLinks

theorem refl (b : Fish) : SameLinks b b :=
  { head := rfl, next := fun _ => rfl, location := fun _ => rfl }

theorem trans {b'' : Fish} (h : SameLinks b b') (h' : SameLinks b' b'') :
    SameLinks b b'' :=
  { head := h'.head.trans h.head
    next := fun i => (h'.next i).trans (h.next i)
    location := fun i => (h'.location i).trans (h.location i) }

theorem setSlot (b : Fish) {i : Slot} {s : BlinkStruct}
    (hnext : s.next = (b.blinkArray i).next)
    (hlocation : s.location = (b.blinkArray i).location) :
    SameLinks b (b.setSlot i s) := by
  refine { head := rfl, next := fun j => ?_, location := fun j => ?_ }
  · by_cases hj : j = i
    · subst hj
      rw [setSlot_self, hnext]
    · rw [setSlot_ne b s hj]
  · by_cases hj : j = i
    · subst hj
      rw [setSlot_self, hlocation]
    · rw [setSlot_ne b s hj]

theorem poke (b : Fish) (cl : Byte) (eax : Nat) :
    SameLinks b (mp1Poke b cl eax) :=
  { head := rfl, next := fun _ => rfl, location := fun _ => rfl }

theorem link (h : SameLinks b b') : BlinkList.link b' = BlinkList.link b := by
  funext p
  cases p with
  | none => rfl
  | some i => exact h.next i

theorem chainFrom (h : SameLinks b b') (hl : ChainFrom b p l) :
    ChainFrom b' p l := by
  unfold ChainFrom
  rw [h.link]
  exact hl

theorem chain (h : SameLinks b b') (hl : Chain b l) : Chain b' l := by
  unfold Chain
  rw [h.head]
  exact h.chainFrom hl

end SameLinks

/-! ## The loops -/

/-- Slot `i` has the location `ax`. -/
def At (b : Fish) (ax : UInt16) (i : Slot) : Bool :=
  (b.blinkArray i).location = ax

/-- `mp1_find_helper` finds the first structure at a location. -/
theorem findLoop_chain (ax : UInt16) (h : ChainFrom b p l) (n : Nat) :
    findLoop b ax n p =
      if (l.takeWhile fun i => !At b ax i).length < n then some (l.find? (At b ax))
      else none := by
  induction l generalizing p n with
  | nil =>
      rw [h.start]
      cases n with
      | zero => rfl
      | succ n =>
          rw [findLoop, List.takeWhile_nil, List.length_nil,
            if_pos (Nat.succ_pos n), List.find?_nil]
  | cons i l ih =>
      rw [h.head]
      cases n with
      | zero => rw [findLoop, if_neg (Nat.not_lt_zero _)]
      | succ n =>
          rw [findLoop]
          by_cases hi : (b.blinkArray i).location = ax
          · have hat : At b ax i = true := decide_eq_true hi
            rw [if_pos hi, List.find?_cons_of_pos hat,
              List.takeWhile_cons_of_neg (by simp [hat]), List.length_nil,
              if_pos (Nat.succ_pos n)]
          · have hat : At b ax i = false := decide_eq_false hi
            rw [if_neg hi, ih h.tail n, List.find?_cons_of_neg (by simp [hat]),
              List.takeWhile_cons_of_pos (by simp [hat])]
            simp only [List.length_cons, Nat.add_lt_add_iff_right]

theorem taskletNode_sameLinks (b : Fish) (i : Slot) :
    SameLinks b (taskletNode b i) := by
  unfold taskletNode
  dsimp only
  have hcount : SameLinks b (b.setSlot i
      { b.blinkArray i with
        countdown := (b.blinkArray i).countdown - 1 }) := .setSlot b rfl rfl
  have hphase : ∀ cl countdown status, SameLinks b
      ((mp1Poke (b.setSlot i
          { b.blinkArray i with
            countdown := (b.blinkArray i).countdown - 1 }) cl
          ((b.blinkArray i).location.toNat * 2)).setSlot i
        { b.blinkArray i with countdown := countdown, status := status }) := by
    intro cl countdown status
    have hpoked := hcount.trans
      (.poke _ cl ((b.blinkArray i).location.toNat * 2))
    exact hpoked.trans
      (.setSlot _ (hpoked.next i).symm (hpoked.location i).symm)
  split
  · exact hcount
  · split
    · exact hphase _ _ _
    · exact hphase _ _ _

theorem foldl_taskletNode_sameLinks (b : Fish) (l : List Slot) :
    SameLinks b (l.foldl taskletNode b) := by
  induction l generalizing b with
  | nil => exact .refl b
  | cons i l ih => exact (taskletNode_sameLinks b i).trans (ih _)

/-- `mp1_rtc_tasklet` treats each structure of the list once. -/
theorem taskletLoop_chain (h : ChainFrom b p l) (n : Nat) :
    taskletLoop n p b =
      if l.length < n then some (l.foldl taskletNode b) else none := by
  induction l generalizing b p n with
  | nil =>
      rw [h.start]
      cases n with
      | zero => rfl
      | succ n => rw [taskletLoop, List.length_nil, if_pos (Nat.succ_pos n)]; rfl
  | cons i l ih =>
      rw [h.head]
      cases n with
      | zero => rw [taskletLoop, if_neg (Nat.not_lt_zero _)]
      | succ n =>
          have hsame := taskletNode_sameLinks b i
          have hrest : ChainFrom (taskletNode b i)
              ((taskletNode b i).blinkArray i).next l := by
            rw [hsame.next i]
            exact hsame.chainFrom h.tail
          rw [taskletLoop, ih hrest n, List.foldl_cons]
          simp only [List.length_cons, Nat.add_lt_add_iff_right]

/-- It only returns from a list that ends. -/
theorem chain_of_taskletLoop {n : Nat} (h : taskletLoop n p b = some b') :
    ∃ l, ChainFrom b p l := by
  induction n generalizing p b with
  | zero => cases h
  | succ n ih =>
      cases p with
      | none => exact ⟨[], rfl⟩
      | some i =>
          rw [taskletLoop] at h
          obtain ⟨l, hrest⟩ := ih h
          have hsame := taskletNode_sameLinks b i
          unfold ChainFrom at hrest
          rw [hsame.link, hsame.next i] at hrest
          exact ⟨i :: l, rfl, Option.some_ne_none i, hrest⟩

/-- The cell behind which a list goes on after the slots `zs`. -/
def lastCell (edx : Option Slot) (zs : List Slot) : Option Slot :=
  zs.foldl (fun _ z => some z) edx

/-- `remove_find_prev` finds the cell that points to a structure of the list. -/
theorem removeFindPrev_chain {zs ys : List Slot} {edx : Option Slot}
    (h : ChainFrom b (cell b edx) (zs ++ i :: ys)) (n : Nat) :
    removeFindPrev b i n edx =
      if zs.length < n then some (lastCell edx zs) else none := by
  induction zs generalizing edx n with
  | nil =>
      cases n with
      | zero => rfl
      | succ n =>
          rw [removeFindPrev, if_pos h.head, List.length_nil,
            if_pos (Nat.succ_pos n)]
          rfl
  | cons z zs ih =>
      have hcell : cell b edx = some z := h.head
      have hne : z ≠ i := by
        rintro rfl
        apply (List.nodup_cons.1 h.nodup).1
        exact List.mem_append_right _ List.mem_cons_self
      cases n with
      | zero => rw [removeFindPrev, if_neg (Nat.not_lt_zero _)]
      | succ n =>
          have hrest : ChainFrom b (cell b (some z)) (zs ++ i :: ys) := h.tail
          rw [removeFindPrev, hcell, if_neg (by simpa using hne)]
          dsimp only
          rw [ih hrest n]
          simp only [List.length_cons, Nat.add_lt_add_iff_right, lastCell,
            List.foldl_cons]

/-! ## The calls -/

theorem malloc_location (h : mp1Malloc b = some i) :
    (b.blinkArray i).location = 0 := by
  simpa using List.find?_some h

/-- A slot stays the first free one while it and those before it keep their
locations. -/
theorem malloc_again (h : mp1Malloc b = some i)
    (hfree : (b'.blinkArray i).location = 0)
    (hothers : ∀ j, j ≠ i →
      (b'.blinkArray j).location = (b.blinkArray j).location) :
    mp1Malloc b' = some i := by
  obtain ⟨-, as, bs, hsplit, hused⟩ := List.find?_eq_some_iff_append.1 h
  refine List.find?_eq_some_iff_append.2
    ⟨decide_eq_true hfree, as, bs, hsplit, fun a ha => ?_⟩
  have hbefore := hused a ha
  have hne : a ≠ i := by
    rintro rfl
    have hzero := malloc_location h
    simp [hzero] at hbefore
  rw [hothers a hne]
  exact hbefore

/-- The slot that `mp1_ioctl_add` takes, if it accepts the structure. -/
def newSlot (b : Fish) (arg : BlinkStruct) : Option Slot :=
  if arg.location.toNat ≥ 80 * 25 then none else mp1Malloc b

/-- The structure that is put there. -/
def added (b : Fish) (arg : BlinkStruct) : BlinkStruct :=
  { arg with status := 1, countdown := arg.onLength, next := b.listHead }

theorem added_next (b : Fish) (arg : BlinkStruct) :
    (added b arg).next = b.listHead := rfl

theorem newSlot_malloc {arg : BlinkStruct} (h : newSlot b arg = some i) :
    mp1Malloc b = some i := by
  unfold newSlot at h
  split at h
  · cases h
  · exact h

theorem add_none {arg : BlinkStruct} (h : newSlot b arg = none) :
    (mp1IoctlAdd b arg).1 = b := by
  unfold newSlot at h
  unfold mp1IoctlAdd
  split
  · rfl
  · rw [if_neg ‹_›] at h
    rw [h]

theorem add_some {arg : BlinkStruct} (h : newSlot b arg = some i) :
    (mp1IoctlAdd b arg).1 =
      mp1Poke { b.setSlot i (added b arg) with listHead := some i } arg.onChar
        (arg.location.toNat * 2) := by
  unfold newSlot at h
  unfold mp1IoctlAdd
  split
  · rw [if_pos ‹_›] at h
    cases h
  · rw [if_neg ‹_›] at h
    rw [h]
    rfl

theorem link_add {arg : BlinkStruct} (h : newSlot b arg = some i) :
    link (mp1IoctlAdd b arg).1 =
      Function.update (link b) (some i) b.listHead := by
  rw [add_some h]
  exact link_setSlot b i (added b arg)

theorem head_add {arg : BlinkStruct} (h : newSlot b arg = some i) :
    (mp1IoctlAdd b arg).1.listHead = some i := by
  rw [add_some h]
  rfl

/-- A new structure comes to the front of the list. -/
theorem chain_add {arg : BlinkStruct} (h : Chain b l)
    (hslot : newSlot b arg = some i) (hnew : i ∉ l) :
    Chain (mp1IoctlAdd b arg).1 (i :: l) := by
  unfold Chain ChainFrom
  rw [head_add hslot, link_add hslot]
  exact Linked.push h (by simp) (by simpa using hnew)

/-- In a slot that is on the list already it makes a cycle. -/
theorem not_chain_add {arg : BlinkStruct} (h : Chain b l)
    (hslot : newSlot b arg = some i) (hlisted : i ∈ l) (l' : List Slot) :
    ¬ Chain (mp1IoctlAdd b arg).1 l' := by
  unfold Chain ChainFrom
  rw [head_add hslot, link_add hslot]
  exact Linked.not_linked_back h (List.mem_map_of_mem hlisted)

theorem add_slot {arg : BlinkStruct} (h : newSlot b arg = some i) :
    (mp1IoctlAdd b arg).1.blinkArray i = added b arg := by
  rw [add_some h]
  exact setSlot_self b i _

theorem add_others {arg : BlinkStruct} (h : newSlot b arg = some i) {j : Slot}
    (hj : j ≠ i) : (mp1IoctlAdd b arg).1.blinkArray j = b.blinkArray j := by
  rw [add_some h]
  exact setSlot_ne b _ hj

/-- A call of `mp1_find_helper` that returns has found the first structure of
the list at the location. -/
theorem findHelper_chain {ax : UInt16} {n : Nat} {r : Option Slot}
    (h : Chain b l) (hcall : mp1FindHelper n b ax = some r) :
    r = l.find? (At b ax) := by
  rw [mp1FindHelper, findLoop_chain ax h] at hcall
  split at hcall
  · exact (Option.some.inj hcall).symm
  · cases hcall

/-- With fuel for the whole list `mp1_find_helper` returns. -/
theorem findHelper_returns (h : Chain b l) (ax : UInt16) :
    mp1FindHelper (l.length + 1) b ax = some (l.find? (At b ax)) := by
  have hlen : (l.takeWhile fun i => !At b ax i).length < l.length + 1 :=
    Nat.lt_succ_of_le (List.takeWhile_sublist _).length_le
  rw [mp1FindHelper, findLoop_chain ax h, if_pos hlen]

theorem lastCell_concat (edx : Option Slot) (zs : List Slot) (z : Slot) :
    lastCell edx (zs ++ [z]) = some z := by
  rw [lastCell, List.foldl_append]
  rfl

/-- The state without the structure in slot `i`, behind the slots `xs`. -/
def unlinked (b : Fish) (xs : List Slot) (i : Slot) : Fish :=
  mp1Free (setCell b (lastCell none xs) (b.blinkArray i).next) i

/-- `mp1_ioctl_remove` takes the first structure at the location out, if there
is one. -/
theorem remove_chain {arg : UInt32} {n : Nat} (h : Chain b l)
    (hcall : fishCall n b (.remove arg) = some b') :
    mp1FindHelper n b arg.toUInt16 = some (l.find? (At b arg.toUInt16)) ∧
      (l.find? (At b arg.toUInt16) = none ∧ b' = b ∨
        ∃ xs i ys, l = xs ++ i :: ys ∧
          l.find? (At b arg.toUInt16) = some i ∧ b' = unlinked b xs i) := by
  unfold fishCall at hcall
  dsimp only at hcall
  unfold mp1IoctlRemove at hcall
  cases hfind : mp1FindHelper n b arg.toUInt16 with
  | none =>
      rw [hfind] at hcall
      cases hcall
  | some r =>
      have hr := findHelper_chain h hfind
      rw [hfind] at hcall
      refine ⟨congrArg some hr, ?_⟩
      cases r with
      | none =>
          cases hcall
          exact .inl ⟨hr.symm, rfl⟩
      | some i =>
          obtain ⟨-, xs, ys, hsplit, -⟩ :=
            List.find?_eq_some_iff_append.1 hr.symm
          have hwhole : ChainFrom b (cell b none) (xs ++ i :: ys) := by
            rw [← hsplit]
            exact h
          dsimp only at hcall
          rw [removeFindPrev_chain hwhole] at hcall
          split at hcall
          · cases hcall
            exact .inr ⟨xs, i, ys, hsplit, hr.symm, rfl⟩
          · cases hcall

theorem link_free (b : Fish) (i : Slot) :
    link (mp1Free b i) = Function.update (link b) (some i) none :=
  link_setSlot b i .zero

/-- What is left is a list. -/
theorem chain_unlinked {xs ys : List Slot} (h : Chain b (xs ++ i :: ys)) :
    Chain (unlinked b xs i) (xs ++ ys) := by
  have hnodup := ChainFrom.nodup h
  have hgone : i ∉ xs ++ ys := by
    intro hmem
    have hperm := hnodup.perm List.perm_middle
    exact (List.nodup_cons.1 hperm).1 hmem
  -- the slot that is freed is on the list no more
  have hfree : ∀ c : Fish, Chain c (xs ++ ys) → Chain (mp1Free c i) (xs ++ ys) := by
    intro c hc
    unfold Chain ChainFrom
    rw [link_free]
    refine Linked.congr (fun q hq => ?_) hc
    obtain ⟨j, hj, rfl⟩ := List.mem_map.1 hq
    have hne : j ≠ i := by
      rintro rfl
      exact hgone hj
    rw [Function.update_of_ne (by simpa using hne)]
  apply hfree _
  rcases List.eq_nil_or_concat' xs with rfl | ⟨ws, w, rfl⟩
  · exact ChainFrom.tail h
  · rw [List.append_assoc, List.singleton_append] at h
    unfold Chain ChainFrom at h ⊢
    rw [List.map_append, List.map_cons, List.map_cons] at h
    rw [lastCell_concat, setCell, link_setSlot, List.append_assoc,
      List.singleton_append, List.map_append, List.map_cons]
    exact Linked.unlink h

/-- The other structures keep their fields, the link apart. -/
theorem unlinked_slot (b : Fish) (xs : List Slot) {i j : Slot} (hj : j ≠ i) :
    ∃ p, (unlinked b xs i).blinkArray j = { b.blinkArray j with next := p } := by
  unfold unlinked
  rw [mp1Free, setSlot_ne _ _ hj]
  cases lastCell none xs with
  | none => exact ⟨(b.blinkArray j).next, rfl⟩
  | some w =>
      rw [setCell]
      by_cases hw : j = w
      · subst hw
        rw [setSlot_self]
        exact ⟨_, rfl⟩
      · rw [setSlot_ne _ _ hw]
        exact ⟨(b.blinkArray j).next, rfl⟩

theorem syncCopy_location (esi edi : BlinkStruct) :
    (syncCopy esi edi).location = edi.location := rfl

theorem sync_found {arg : UInt32} {n : Nat} {j : Slot}
    (hi : mp1FindHelper n b (arg >>> 16).toUInt16 = some (some i))
    (hj : mp1FindHelper n b arg.toUInt16 = some (some j)) :
    fishCall n b (.sync arg) =
      some (mp1Poke (b.setSlot j (syncCopy (b.blinkArray i) (b.blinkArray j)))
        (syncChar (syncCopy (b.blinkArray i) (b.blinkArray j)))
        ((b.blinkArray j).location.toNat * 2)) := by
  dsimp only [fishCall]
  rw [mp1IoctlSync, hi]
  dsimp only
  rw [hj]
  rfl

/-- `mp1_ioctl_sync` copies from a structure at one location to one at the
other, or does nothing. -/
theorem sync_effect {arg : UInt32} {n : Nat}
    (hcall : fishCall n b (.sync arg) = some b') :
    b' = b ∧ (mp1FindHelper n b (arg >>> 16).toUInt16 = some none ∨
        mp1FindHelper n b arg.toUInt16 = some none) ∨
      ∃ i j, mp1FindHelper n b (arg >>> 16).toUInt16 = some (some i) ∧
        mp1FindHelper n b arg.toUInt16 = some (some j) ∧
        b' = mp1Poke (b.setSlot j (syncCopy (b.blinkArray i) (b.blinkArray j)))
          (syncChar (syncCopy (b.blinkArray i) (b.blinkArray j)))
          ((b.blinkArray j).location.toNat * 2) := by
  unfold fishCall at hcall
  dsimp only at hcall
  unfold mp1IoctlSync at hcall
  cases hsource : mp1FindHelper n b (arg >>> 16).toUInt16 with
  | none =>
      rw [hsource] at hcall
      cases hcall
  | some r =>
      rw [hsource] at hcall
      cases r with
      | none =>
          cases hcall
          exact .inl ⟨rfl, .inl rfl⟩
      | some i =>
          dsimp only at hcall
          cases hdest : mp1FindHelper n b arg.toUInt16 with
          | none =>
              rw [hdest] at hcall
              cases hcall
          | some q =>
              rw [hdest] at hcall
              cases q with
              | none =>
                  cases hcall
                  exact .inl ⟨rfl, .inr rfl⟩
              | some j =>
                  cases hcall
                  exact .inr ⟨i, j, rfl, rfl, rfl⟩

theorem sync_sameLinks {arg : UInt32} {n : Nat}
    (hcall : fishCall n b (.sync arg) = some b') : SameLinks b b' := by
  rcases sync_effect hcall with ⟨rfl, -⟩ | ⟨i, j, -, -, rfl⟩
  · exact .refl b'
  · have hset : SameLinks b
        (b.setSlot j (syncCopy (b.blinkArray i) (b.blinkArray j))) :=
      .setSlot b rfl rfl
    exact hset.trans (.poke _ _ _)

theorem find_chain {location : UInt16} {n : Nat}
    (hcall : fishCall n b (.find location) = some b') : b' = b := by
  unfold fishCall at hcall
  obtain ⟨-, -, rfl⟩ := Option.map_eq_some_iff.1 hcall
  rfl

theorem tasklet_chain {n : Nat} (h : Chain b l)
    (hcall : fishCall n b .tasklet = some b') :
    b' = l.foldl taskletNode b := by
  have hloop := taskletLoop_chain h n
  unfold fishCall at hcall
  dsimp only at hcall
  unfold mp1RtcTasklet at hcall
  rw [hloop] at hcall
  split at hcall
  · exact (Option.some.inj hcall).symm
  · cases hcall

/-! ## Runs -/

/-- The program, and the slots that have been added and not removed. -/
structure Listing where
  fish : Fish
  live : Slot → Bool

def liveAfter (fuel : Nat) (L : Listing) : FishCall → Slot → Bool
  | .add arg =>
      match newSlot L.fish arg with
      | some i => Function.update L.live i true
      | none => L.live
  | .remove arg =>
      match mp1FindHelper fuel L.fish arg.toUInt16 with
      | some (some i) => Function.update L.live i false
      | _ => L.live
  | _ => L.live

def listingStep (fuel : Nat) (L : Listing) (e : FishCall) : Option Listing :=
  (fishCall fuel L.fish e).map fun b => { fish := b, live := liveAfter fuel L e }

/-- A call that returns. -/
def ListingStep (L : Listing) (e : FishCall) (L' : Listing) : Prop :=
  ∃ fuel, listingStep fuel L e = some L'

def Listing.start (vmem : Nat → Byte) : Listing :=
  { fish := .start vmem, live := fun _ => false }

/-- The list is a proper one: it ends, it has each live slot once and no other,
`mp1_malloc` returns none of them, and the loops over it end. -/
structure Proper (L : Listing) : Prop where
  list : ∃ l, Chain L.fish l ∧ l.Nodup ∧ ∀ i, i ∈ l ↔ L.live i = true
  fresh : ∀ i, mp1Malloc L.fish = some i → L.live i = false
  tasklet : ∃ n, (fishCall n L.fish .tasklet).isSome
  find : ∀ ax, ∃ n, (mp1FindHelper n L.fish ax).isSome
  remove : ∀ arg, ∃ n, (fishCall n L.fish (.remove arg)).isSome

/-- The list has the live slots, and none of them is at location 0. -/
def Kept (L : Listing) : Prop :=
  ∃ l, Chain L.fish l ∧ (∀ i, i ∈ l ↔ L.live i = true) ∧
    ∀ i ∈ l, (L.fish.blinkArray i).location ≠ 0

/-- No structure is put at location 0. -/
def OffOrigin (L : Listing) : FishCall → Prop
  | .add arg => arg.location = 0 → newSlot L.fish arg = none
  | _ => True

/-- `remove_find_prev` ends for a structure that has been found. -/
theorem remove_returns (h : Chain b l) (arg : UInt32) :
    ∃ n, (fishCall n b (.remove arg)).isSome := by
  refine ⟨l.length + 1, ?_⟩
  unfold fishCall
  dsimp only
  rw [mp1IoctlRemove, findHelper_returns h]
  cases hslot : l.find? (At b arg.toUInt16) with
  | none => rfl
  | some i =>
      obtain ⟨-, xs, ys, hsplit, -⟩ := List.find?_eq_some_iff_append.1 hslot
      have hwhole : ChainFrom b (cell b none) (xs ++ i :: ys) := by
        rw [← hsplit]
        exact h
      have hshort : xs.length < l.length + 1 := by
        rw [hsplit, List.length_append]
        omega
      dsimp only
      rw [removeFindPrev_chain hwhole, if_pos hshort]
      rfl

theorem tasklet_returns (h : Chain b l) :
    ∃ n, (fishCall n b .tasklet).isSome := by
  refine ⟨l.length + 1, ?_⟩
  unfold fishCall
  dsimp only
  unfold mp1RtcTasklet
  rw [taskletLoop_chain h, if_pos (Nat.lt_succ_self _)]
  rfl

theorem Kept.proper {L : Listing} (h : Kept L) : Proper L := by
  obtain ⟨l, hchain, hlive, hplace⟩ := h
  refine
    { list := ⟨l, hchain, ChainFrom.nodup hchain, hlive⟩, fresh := ?fresh
      tasklet := tasklet_returns hchain, find := ?find
      remove := remove_returns hchain }
  case fresh =>
    intro i hfree
    have hzero := malloc_location hfree
    rw [← Bool.not_eq_true, ← hlive i]
    exact fun hmem => hplace i hmem hzero
  case find =>
    intro ax
    refine ⟨l.length + 1, ?_⟩
    rw [findHelper_returns hchain]
    rfl

/-- Calls that leave the links and the locations alone. -/
theorem Kept.same {L : Listing} (h : Kept L) (hsame : SameLinks L.fish b') :
    Kept { fish := b', live := L.live } := by
  obtain ⟨l, hchain, hlive, hplace⟩ := h
  refine ⟨l, hsame.chain hchain, hlive, fun i hi => ?_⟩
  rw [hsame.location i]
  exact hplace i hi

theorem Kept.add {L : Listing} (h : Kept L) {arg : BlinkStruct} {i : Slot}
    (hslot : newSlot L.fish arg = some i) (hplace : arg.location ≠ 0) :
    Kept { fish := (mp1IoctlAdd L.fish arg).1
           live := Function.update L.live i true } := by
  obtain ⟨l, hchain, hlive, hused⟩ := h
  have hnew : i ∉ l := fun hmem =>
    hused i hmem (malloc_location (newSlot_malloc hslot))
  refine ⟨i :: l, chain_add hchain hslot hnew, fun j => ?_, fun j hj => ?_⟩
  · by_cases hij : j = i
    · subst hij
      simp
    · have hlast : Function.update L.live i true j = L.live j :=
        Function.update_of_ne hij _ _
      dsimp only
      rw [hlast, ← hlive j]
      simp [hij]
  · by_cases hij : j = i
    · subst hij
      rw [add_slot hslot]
      exact hplace
    · rw [add_others hslot hij]
      exact hused j ((List.mem_cons.1 hj).resolve_left hij)

theorem Kept.remove {L : Listing} {xs ys : List Slot} {i : Slot}
    (hchain : Chain L.fish (xs ++ i :: ys))
    (hlive : ∀ j, j ∈ xs ++ i :: ys ↔ L.live j = true)
    (hused : ∀ j ∈ xs ++ i :: ys, (L.fish.blinkArray j).location ≠ 0) :
    Kept { fish := unlinked L.fish xs i
           live := Function.update L.live i false } := by
  have hperm := (ChainFrom.nodup hchain).perm List.perm_middle
  have hgone : i ∉ xs ++ ys := (List.nodup_cons.1 hperm).1
  have hmem : ∀ j, j ≠ i → (j ∈ xs ++ ys ↔ j ∈ xs ++ i :: ys) := by
    intro j hj
    simp [hj]
  refine ⟨xs ++ ys, chain_unlinked hchain, fun j => ?_, fun j hj => ?_⟩
  · by_cases hij : j = i
    · subst hij
      simpa using hgone
    · have hlast : Function.update L.live i false j = L.live j :=
        Function.update_of_ne hij _ _
      dsimp only
      rw [hlast, hmem j hij]
      exact hlive j
  · have hij : j ≠ i := by
      rintro rfl
      exact hgone hj
    obtain ⟨p, hslot⟩ := unlinked_slot L.fish xs hij
    rw [hslot]
    exact hused j ((hmem j hij).1 hj)

/-- One call keeps the list. -/
theorem Kept.step {L L' : Listing} {e : FishCall} (h : Kept L)
    (hstep : ListingStep L e L') (he : OffOrigin L e) : Kept L' := by
  obtain ⟨fuel, hstep⟩ := hstep
  obtain ⟨b', hcall, rfl⟩ := Option.map_eq_some_iff.1 hstep
  obtain ⟨l, hchain, hlive, hused⟩ := id h
  cases e with
  | add arg =>
      cases hcall
      unfold liveAfter
      dsimp only
      cases hslot : newSlot L.fish arg with
      | none =>
          rw [add_none hslot]
          exact h
      | some i =>
          refine h.add hslot fun hzero => ?_
          have hnone := he hzero
          rw [hslot] at hnone
          cases hnone
  | remove arg =>
      obtain ⟨hfind, hremoved⟩ := remove_chain hchain hcall
      unfold liveAfter
      dsimp only
      rw [hfind]
      rcases hremoved with ⟨hnone, rfl⟩ | ⟨xs, i, ys, rfl, hsome, rfl⟩
      · rw [hnone]
        exact h
      · rw [hsome]
        exact Kept.remove hchain hlive hused
  | find location =>
      rw [find_chain hcall]
      exact h
  | sync arg => exact h.same (sync_sameLinks hcall)
  | tasklet =>
      rw [tasklet_chain hchain hcall]
      exact h.same (foldl_taskletNode_sameLinks L.fish l)

/-- A structure at location 0 is in a slot that counts as free. -/
theorem origin_improper {L L' : Listing} {e : FishCall}
    (hstep : ListingStep L e L') (he : ¬OffOrigin L e) : ¬Proper L' := by
  obtain ⟨fuel, hstep⟩ := hstep
  obtain ⟨b', hcall, rfl⟩ := Option.map_eq_some_iff.1 hstep
  cases e with
  | add arg =>
      unfold OffOrigin at he
      rw [Classical.not_imp] at he
      obtain ⟨hzero, htaken⟩ := he
      obtain ⟨i, hslot⟩ := Option.ne_none_iff_exists'.1 htaken
      cases hcall
      intro hproper
      have hagain : mp1Malloc (mp1IoctlAdd L.fish arg).1 = some i := by
        refine malloc_again (newSlot_malloc hslot) ?_ fun j hj => ?_
        · rw [add_slot hslot]
          exact hzero
        · rw [add_others hslot hj]
      have hdead := hproper.fresh i hagain
      unfold liveAfter at hdead
      dsimp only at hdead
      rw [hslot] at hdead
      dsimp only at hdead
      rw [Function.update_self] at hdead
      cases hdead
  | remove | find | sync | tasklet => exact absurd trivial he

theorem kept_start (vmem : Nat → Byte) : Kept (.start vmem) :=
  ⟨[], rfl, fun i => by simp [Listing.start], fun i hi => nomatch hi⟩

/-- The list is proper in every state of a run exactly if no structure is put at
location 0. -/
theorem list_proper_iff {vmem : Nat → Byte} {es : List FishCall} {L : Listing} :
    Run (Within Proper ListingStep) (.start vmem) es L ↔
      Run (Guarded OffOrigin ListingStep) (.start vmem) es L := by
  refine Run.within_iff_guarded (I := Kept) (kept_start vmem) ?kept ?broken
  case kept =>
    intro L e L' hkept hstep he
    have hnext := hkept.step hstep he
    exact ⟨hnext, hnext.proper⟩
  case broken =>
    intro L e L' _ hstep he
    exact origin_improper hstep he

/-! ## Location 0 -/

/-- A structure that is on for seven ticks and off for six. -/
def blinkAt (location : UInt16) : BlinkStruct :=
  { location := location, onChar := 73, offChar := 77, onLength := 7
    offLength := 6, countdown := 0, status := 0, next := none }

theorem malloc_first (h : (b.blinkArray 0).location = 0) :
    mp1Malloc b = some 0 := by
  have hslots : List.finRange (80 * 25) =
      0 :: (List.finRange 1999).map Fin.succ := List.finRange_succ
  have hfree : decide ((b.blinkArray 0).location = 0) = true :=
    decide_eq_true h
  rw [mp1Malloc, hslots, List.find?_cons, hfree]

theorem newSlot_first {arg : BlinkStruct}
    (hlocation : arg.location.toNat < 80 * 25)
    (h : (b.blinkArray 0).location = 0) : newSlot b arg = some 0 := by
  rw [newSlot, if_neg (by omega), malloc_first h]

theorem malloc_second (hused : (b.blinkArray 0).location ≠ 0)
    (h : (b.blinkArray 1).location = 0) : mp1Malloc b = some 1 := by
  have hslots : List.finRange (80 * 25) =
      0 :: (List.finRange 1999).map Fin.succ := List.finRange_succ
  have hrest : List.finRange 1999 = 0 :: (List.finRange 1998).map Fin.succ :=
    List.finRange_succ
  have hfirst : decide ((b.blinkArray 0).location = 0) = false :=
    decide_eq_false hused
  have hsecond : decide ((b.blinkArray (Fin.succ 0)).location = 0) = true :=
    decide_eq_true h
  rw [mp1Malloc, hslots, List.find?_cons, hfirst, hrest, List.map_cons,
    List.find?_cons, hsecond]
  rfl

/-- In a slot that is linked to itself the tasklet goes round. -/
theorem taskletLoop_cycle (n : Nat) :
    ∀ b : Fish, (b.blinkArray 0).next = some 0 →
      taskletLoop n (some 0) b = none := by
  induction n with
  | zero => exact fun _ _ => rfl
  | succ n ih =>
      intro b hcycle
      have hnext : ((taskletNode b 0).blinkArray 0).next = some 0 := by
        rw [(taskletNode_sameLinks b 0).next, hcycle]
      rw [taskletLoop, hnext]
      exact ih _ hnext

theorem listing_add (L : Listing) (arg : BlinkStruct) :
    ∃ L', ListingStep L (.add arg) L' ∧
      L'.fish = (mp1IoctlAdd L.fish arg).1 :=
  ⟨_, ⟨0, rfl⟩, rfl⟩

/-- A structure at location 0 and another one: both are put into the first
slot, which is then linked to itself. -/
theorem origin_reused :
    ∃ L, Run ListingStep (.start fun _ => 0)
        [.add (blinkAt 0), .add (blinkAt 5)] L ∧
      L.fish.listHead = some 0 ∧ (L.fish.blinkArray 0).next = some 0 ∧
      (∀ n, fishCall n L.fish .tasklet = none) ∧ ¬Proper L := by
  obtain ⟨L₁, hstep₁, hfish₁⟩ := listing_add (.start fun _ => 0) (blinkAt 0)
  obtain ⟨L₂, hstep₂, hfish₂⟩ := listing_add L₁ (blinkAt 5)
  have hslot₁ : newSlot (Listing.start fun _ => 0).fish (blinkAt 0) = some 0 :=
    newSlot_first (by decide) rfl
  have hslot₂ : newSlot L₁.fish (blinkAt 5) = some 0 := by
    apply newSlot_first (by decide)
    rw [hfish₁, add_slot hslot₁]
    rfl
  have hhead : L₂.fish.listHead = some 0 := by
    rw [hfish₂]
    exact head_add hslot₂
  have hcycle : (L₂.fish.blinkArray 0).next = some 0 := by
    rw [hfish₂, add_slot hslot₂, added_next, hfish₁, head_add hslot₁]
  have hloops : ∀ n, fishCall n L₂.fish .tasklet = none := by
    intro n
    show taskletLoop n L₂.fish.listHead L₂.fish = none
    rw [hhead]
    exact taskletLoop_cycle n L₂.fish hcycle
  have hrun₁ : Run ListingStep (.start fun _ => 0) [.add (blinkAt 0)] L₁ :=
    .single hstep₁
  refine ⟨L₂, hrun₁.snoc hstep₂, hhead, hcycle, hloops, fun hproper => ?_⟩
  obtain ⟨n, hreturns⟩ := hproper.tasklet
  rw [hloops n] at hreturns
  cases hreturns

end MongOS.Proofs.BlinkList
