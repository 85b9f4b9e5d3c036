import Cumulus.DmpQueue.Model
import Cumulus.Found.Interleave
import Cumulus.Found.Run

/-!
# dmp-queue: every downward message is delivered once, in order

The messages handed to `handle_dmp_messages` go three ways: executed (serviced) inline, stashed
in `Overweight`, or put on a page of the queue, from which `do_service_queue` services them later.
Over any run of `handle_dmp_messages`, `service_queue` (`on_idle`) and `service_overweight`, with
any executor at every call, let `R` be the messages received, `S` those serviced inline or from
the queue, `O` those stashed and `Q` the pages `Pages[begin_used..end_used]` in order. Then
(`delivered_of_reachable`):

* `begin_used ≤ end_used`, and every page outside that range is empty (`PagesWf`);
* `Overweight` holds at `k` the `k`-th stashed message, or nothing once `service_overweight`
  serviced it; `overweight_count` is the number stashed, no index is serviced twice, and the
  counter of the counted map is the number still waiting (`OverweightRepr`);
* `R` is an interleaving of `O` and `S ++ Q` (`Interleave`): with the stashed messages taken
  out, what was received is exactly what was serviced followed by what is queued.

The loop of `do_service_queue` carries fuel, one more pass than the pages in the range; each pass
that goes on advances `begin_used`, so any larger fuel gives the same result
(`doServiceQueue_eq_serviceLoop`): a `none` of the model is a panic of the source.

The queue is read as one list (`DmpQueueState.queue`). Each step of the source's loops moves a
message from one end of a list to another without changing the sum: servicing moves the head of
`Q` to the end of `S`; the inline path, the stash and the new page each add the next received
message to `S`, `O` or the end of `Q`.
-/

namespace Cumulus.DmpQueue

open Cumulus.Primitives Cumulus.Found

/-! ## The queue as one list -/

/-- `Pages[i] ++ Pages[i + 1] ++ … ++ Pages[i + n - 1]`. -/
def pagesFrom (pages : BitVec 32 → List Message) (i : Nat) : Nat → List Message
  | 0 => []
  | n + 1 => pages (BitVec.ofNat 32 i) ++ pagesFrom pages (i + 1) n

/-- The messages queued, page after page from `begin_used` to `end_used`. -/
def DmpQueueState.queue (s : DmpQueueState) : List Message :=
  pagesFrom s.pages s.pageIndex.beginUsed.toNat
    (s.pageIndex.endUsed.toNat - s.pageIndex.beginUsed.toNat)

variable {pages pages' : BitVec 32 → List Message}

/-- The pages of a range read only the map inside the range. -/
theorem pagesFrom_congr {i n : Nat}
    (h : ∀ k, i ≤ k → k < i + n → pages (BitVec.ofNat 32 k) = pages' (BitVec.ofNat 32 k)) :
    pagesFrom pages i n = pagesFrom pages' i n := by
  induction n generalizing i with
  | zero => rfl
  | succ n ih =>
    simp only [pagesFrom]
    rw [h i le_rfl (by omega), ih fun k hk hk' => h k (by omega) (by omega)]

/-- A range one page longer has its last page appended. -/
theorem pagesFrom_succ (pages : BitVec 32 → List Message) (i n : Nat) :
    pagesFrom pages i (n + 1) = pagesFrom pages i n ++ pages (BitVec.ofNat 32 (i + n)) := by
  induction n generalizing i with
  | zero => simp [pagesFrom]
  | succ n ih =>
    rw [pagesFrom, ih (i + 1), pagesFrom, List.append_assoc, Nat.add_right_comm, Nat.add_assoc]

/-- Writing a page outside the range leaves the range as it was. -/
theorem pagesFrom_update_of_not_mem {i n : Nat} (hn : i + n ≤ 2 ^ 32) (j : BitVec 32)
    (hj : j.toNat < i ∨ i + n ≤ j.toNat) (page : List Message) :
    pagesFrom (Function.update pages j page) i n = pagesFrom pages i n := by
  refine pagesFrom_congr fun k hk hk' => Function.update_of_ne ?_ _ _
  intro hkj
  have hk : (BitVec.ofNat 32 k).toNat = k := by
    rw [BitVec.toNat_ofNat]
    exact Nat.mod_eq_of_lt (by omega)
  have := congrArg BitVec.toNat hkj
  omega

/-! ## The page range -/

/-- The page indices: `begin_used ≤ end_used`, and no page outside the range holds a message. -/
structure PagesWf (s : DmpQueueState) : Prop where
  begin_le_end : s.pageIndex.beginUsed ≤ s.pageIndex.endUsed
  empty_outside : ∀ i, i < s.pageIndex.beginUsed ∨ s.pageIndex.endUsed ≤ i → s.pages i = []

/-- The empty queue has a well-formed page range. -/
theorem pagesWf_empty : PagesWf DmpQueueState.empty :=
  ⟨BitVec.le_refl _, fun _ _ => rfl⟩

variable {s : DmpQueueState}

/-- `PagesWf` reads the pages and the two indices only. -/
theorem PagesWf.congr {s' : DmpQueueState} (h : PagesWf s) (hp : s'.pages = s.pages)
    (hb : s'.pageIndex.beginUsed = s.pageIndex.beginUsed)
    (he : s'.pageIndex.endUsed = s.pageIndex.endUsed) : PagesWf s' :=
  ⟨hb ▸ he ▸ h.begin_le_end, fun i hi => hp ▸ h.empty_outside i (hb ▸ he ▸ hi)⟩

/-- The queue reads only the pages and the used range. -/
theorem queue_congr {s' : DmpQueueState} (hp : s'.pages = s.pages)
    (hb : s'.pageIndex.beginUsed = s.pageIndex.beginUsed)
    (he : s'.pageIndex.endUsed = s.pageIndex.endUsed) : s'.queue = s.queue := by
  simp only [DmpQueueState.queue, hp, hb, he]

/-- Nothing is queued when the range is empty. -/
theorem queue_eq_nil_of_not_lt (h : PagesWf s)
    (hn : ¬s.pageIndex.beginUsed < s.pageIndex.endUsed) : s.queue = [] := by
  have hle := h.begin_le_end
  rw [BitVec.le_def] at hle
  rw [BitVec.lt_def] at hn
  have : s.pageIndex.endUsed.toNat - s.pageIndex.beginUsed.toNat = 0 := by omega
  simp only [DmpQueueState.queue, this, pagesFrom]

/-- A non-empty range is its head page followed by the pages after it. -/
theorem queue_eq_of_lt (hlt : s.pageIndex.beginUsed < s.pageIndex.endUsed) :
    s.queue = s.pages s.pageIndex.beginUsed ++ pagesFrom s.pages (s.pageIndex.beginUsed.toNat + 1)
      (s.pageIndex.endUsed.toNat - (s.pageIndex.beginUsed.toNat + 1)) := by
  rw [BitVec.lt_def] at hlt
  have hn : s.pageIndex.endUsed.toNat - s.pageIndex.beginUsed.toNat =
      s.pageIndex.endUsed.toNat - (s.pageIndex.beginUsed.toNat + 1) + 1 := by omega
  rw [DmpQueueState.queue, hn, pagesFrom, BitVec.ofNat_toNat, BitVec.setWidth_eq]

/-! ## What the loops do to the page range

`do_service_queue` takes the page at `begin_used` and either moves past it or puts the rest of
it back; at its exit it resets an empty range to `0..0`; `handle_dmp_messages` writes a page at
`end_used` and moves the end past it. -/

/-- `Pages::take(begin_used)`, then `begin_used += 1`. -/
theorem PagesWf.advance (h : PagesWf s) {b : BitVec 32}
    (hb : checkedAdd s.pageIndex.beginUsed 1 = some b)
    (hlt : s.pageIndex.beginUsed < s.pageIndex.endUsed) :
    PagesWf { s with
      pages := Function.update s.pages s.pageIndex.beginUsed []
      pageIndex := { s.pageIndex with beginUsed := b } } := by
  obtain ⟨-, hbv⟩ := (checkedAdd_one_eq_some (by decide)).mp hb
  rw [BitVec.lt_def] at hlt
  constructor
  · show b ≤ s.pageIndex.endUsed
    rw [BitVec.le_def]
    omega
  · intro i hi
    show Function.update s.pages s.pageIndex.beginUsed [] i = []
    by_cases hib : i = s.pageIndex.beginUsed
    · rw [hib, Function.update_self]
    · rw [Function.update_of_ne hib]
      have hne : i.toNat ≠ s.pageIndex.beginUsed.toNat := fun e => hib (BitVec.eq_of_toNat_eq e)
      apply h.empty_outside
      simp only [BitVec.lt_def, BitVec.le_def] at hi ⊢
      omega

/-- Moving past the head page leaves the pages after it. -/
theorem queue_advance (h : PagesWf s) {b : BitVec 32}
    (hb : checkedAdd s.pageIndex.beginUsed 1 = some b)
    (hlt : s.pageIndex.beginUsed < s.pageIndex.endUsed) :
    s.queue = s.pages s.pageIndex.beginUsed ++ ({ s with
      pages := Function.update s.pages s.pageIndex.beginUsed []
      pageIndex := { s.pageIndex with beginUsed := b } } : DmpQueueState).queue := by
  obtain ⟨-, hbv⟩ := (checkedAdd_one_eq_some (by decide)).mp hb
  have hle := BitVec.le_def.mp h.begin_le_end
  rw [queue_eq_of_lt hlt]
  congr 1
  show _ = pagesFrom (Function.update s.pages s.pageIndex.beginUsed []) b.toNat
    (s.pageIndex.endUsed.toNat - b.toNat)
  rw [hbv, pagesFrom_update_of_not_mem (by omega) _ (.inl (by omega))]

/-- `Pages::insert(begin_used, &page[i..])`: the page at the head of a non-empty range replaced. -/
theorem PagesWf.putBack (h : PagesWf s) (hlt : s.pageIndex.beginUsed < s.pageIndex.endUsed)
    (rest : List Message) :
    PagesWf { s with pages := Function.update s.pages s.pageIndex.beginUsed rest } := by
  refine ⟨h.begin_le_end, fun i hi => ?_⟩
  show Function.update s.pages s.pageIndex.beginUsed rest i = []
  have hib : i ≠ s.pageIndex.beginUsed := by
    rintro rfl
    simp only [BitVec.lt_def, BitVec.le_def] at hi hlt
    omega
  rw [Function.update_of_ne hib]
  exact h.empty_outside i hi

/-- Putting back `rest` as the first page makes the queue `rest` followed by the later pages. -/
theorem queue_putBack (h : PagesWf s) (hlt : s.pageIndex.beginUsed < s.pageIndex.endUsed)
    (rest : List Message) :
    ({ s with pages := Function.update s.pages s.pageIndex.beginUsed rest } : DmpQueueState).queue =
      rest ++ pagesFrom s.pages (s.pageIndex.beginUsed.toNat + 1)
        (s.pageIndex.endUsed.toNat - (s.pageIndex.beginUsed.toNat + 1)) := by
  have hle := BitVec.le_def.mp h.begin_le_end
  rw [@queue_eq_of_lt { s with pages := Function.update s.pages s.pageIndex.beginUsed rest } hlt]
  dsimp only
  rw [Function.update_self, pagesFrom_update_of_not_mem (by omega) _ (.inl (by omega))]

/-- The reset of an empty range to `0..0`. -/
theorem PagesWf.reset (h : PagesWf s) (heq : s.pageIndex.beginUsed = s.pageIndex.endUsed) :
    PagesWf { s with pageIndex := { s.pageIndex with beginUsed := 0, endUsed := 0 } } := by
  refine ⟨BitVec.le_refl _, fun i _ => h.empty_outside i ?_⟩
  rw [heq, BitVec.lt_def, BitVec.le_def]
  omega

/-- The range reset to `0..0` holds no message. -/
theorem queue_reset (s : DmpQueueState) :
    ({ s with pageIndex := { s.pageIndex with beginUsed := 0, endUsed := 0 } } :
      DmpQueueState).queue = [] := rfl

/-- `Pages::insert(end_used, page)`, then `end_used += 1`: the page joins the end of the queue. -/
theorem PagesWf.push (h : PagesWf s) {e : BitVec 32}
    (he : checkedAdd s.pageIndex.endUsed 1 = some e) (page : List Message) :
    PagesWf { s with
      pages := Function.update s.pages s.pageIndex.endUsed page
      pageIndex := { s.pageIndex with endUsed := e } } := by
  obtain ⟨-, hev⟩ := (checkedAdd_one_eq_some (by decide)).mp he
  have hle := BitVec.le_def.mp h.begin_le_end
  constructor
  · show s.pageIndex.beginUsed ≤ e
    rw [BitVec.le_def]
    omega
  · intro i hi
    show Function.update s.pages s.pageIndex.endUsed page i = []
    have hne : i.toNat ≠ s.pageIndex.endUsed.toNat := by
      simp only [BitVec.lt_def, BitVec.le_def] at hi
      omega
    rw [Function.update_of_ne fun e => hne (congrArg BitVec.toNat e)]
    apply h.empty_outside
    simp only [BitVec.lt_def, BitVec.le_def] at hi ⊢
    omega

/-- `Pages::insert(end_used, page)`, then `end_used += 1`: the queue gains the page at its end. -/
theorem queue_push (h : PagesWf s) {e : BitVec 32}
    (he : checkedAdd s.pageIndex.endUsed 1 = some e) (page : List Message) :
    ({ s with
      pages := Function.update s.pages s.pageIndex.endUsed page
      pageIndex := { s.pageIndex with endUsed := e } } : DmpQueueState).queue = s.queue ++ page := by
  obtain ⟨hlt, hev⟩ := (checkedAdd_one_eq_some (by decide)).mp he
  have hle := BitVec.le_def.mp h.begin_le_end
  have hn : e.toNat - s.pageIndex.beginUsed.toNat =
      s.pageIndex.endUsed.toNat - s.pageIndex.beginUsed.toNat + 1 := by omega
  have hlast : BitVec.ofNat 32 (s.pageIndex.beginUsed.toNat +
      (s.pageIndex.endUsed.toNat - s.pageIndex.beginUsed.toNat)) = s.pageIndex.endUsed := by
    rw [Nat.add_sub_cancel' hle, BitVec.ofNat_toNat, BitVec.setWidth_eq]
  show pagesFrom (Function.update s.pages s.pageIndex.endUsed page) s.pageIndex.beginUsed.toNat
    (e.toNat - s.pageIndex.beginUsed.toNat) = _
  rw [hn, pagesFrom_succ, hlast, Function.update_self,
    pagesFrom_update_of_not_mem (by omega) _ (.inr (by omega))]
  rfl

/-! ## The overweight store -/

/-- The overweight store against the messages ever stashed (`stashed`, in order) and the indices
that `service_overweight` serviced (`done`, in order). -/
structure OverweightRepr (s : DmpQueueState) (stashed : List Message) (done : List (BitVec 64)) :
    Prop where
  /-- `overweight_count` is the number of messages stashed. -/
  count : s.pageIndex.overweightCount.toNat = stashed.length
  /-- Index `k` holds the `k`-th stashed message until it is serviced. -/
  entry : ∀ k, s.overweight k = if k ∈ done then none else stashed[k.toNat]?
  /-- Only stashed messages are serviced. -/
  done_lt : ∀ k ∈ done, k.toNat < stashed.length
  /-- No message is serviced twice. -/
  nodup : done.Nodup
  /-- The counter of the counted map is the number of messages still waiting. -/
  entries : s.overweightEntries + done.length = stashed.length

/-- The empty overweight store represents no stashed message. -/
theorem overweightRepr_empty : OverweightRepr DmpQueueState.empty [] [] :=
  ⟨rfl, fun _ => rfl, fun _ h => absurd h List.not_mem_nil, List.nodup_nil, rfl⟩

variable {stashed : List Message} {done : List (BitVec 64)}

/-- `s'` has the overweight store, its counter and `overweight_count` of `s`. -/
structure SameOverweight (s s' : DmpQueueState) : Prop where
  overweight : s'.overweight = s.overweight
  overweightEntries : s'.overweightEntries = s.overweightEntries
  overweightCount : s'.pageIndex.overweightCount = s.pageIndex.overweightCount

/-- `OverweightRepr` reads the overweight store, its counter and `overweight_count` only. -/
theorem OverweightRepr.of_same {s' : DmpQueueState} (h : OverweightRepr s stashed done)
    (hs : SameOverweight s s') : OverweightRepr s' stashed done :=
  ⟨hs.3 ▸ h.count, hs.1 ▸ h.entry, h.done_lt, h.nodup, hs.2 ▸ h.entries⟩

/-- Every key of `Overweight` is below `overweight_count`. -/
theorem OverweightRepr.lt_count (h : OverweightRepr s stashed done) {k : BitVec 64}
    (hk : (s.overweight k).isSome) : k < s.pageIndex.overweightCount := by
  rw [h.entry k] at hk
  split at hk
  · cases hk
  · rw [BitVec.lt_def, h.count]
    simpa using hk

/-- The next free index holds nothing. -/
theorem OverweightRepr.overweight_count (h : OverweightRepr s stashed done) :
    s.overweight s.pageIndex.overweightCount = none := by
  have hnot : s.pageIndex.overweightCount ∉ done := fun hm => by
    have := h.done_lt _ hm
    rw [h.count] at this
    exact lt_irrefl _ this
  rw [h.entry, if_neg hnot, h.count, List.getElem?_eq_none le_rfl]

/-- Stashing `m` at `overweight_count` and counting it. -/
theorem OverweightRepr.stash (h : OverweightRepr s stashed done) {c : BitVec 64}
    (hc : checkedAdd s.pageIndex.overweightCount 1 = some c) (m : Message) :
    OverweightRepr { s.insertOverweight s.pageIndex.overweightCount m with
      pageIndex := { s.pageIndex with overweightCount := c } } (stashed ++ [m]) done := by
  obtain ⟨-, hcv⟩ := (checkedAdd_one_eq_some (by decide)).mp hc
  have hfree := h.overweight_count
  constructor
  · show c.toNat = _
    rw [hcv, h.count, List.length_append, List.length_singleton]
  · intro k
    show Function.update s.overweight s.pageIndex.overweightCount (some m) k = _
    by_cases hk : k = s.pageIndex.overweightCount
    · have hnot : k ∉ done := fun hm => by
        have := h.done_lt _ hm
        rw [hk, h.count] at this
        exact lt_irrefl _ this
      rw [hk, Function.update_self, if_neg (hk ▸ hnot), h.count,
        List.getElem?_append_right le_rfl, Nat.sub_self]
      rfl
    · rw [Function.update_of_ne hk, h.entry k]
      split
      · rfl
      · have hne : k.toNat ≠ stashed.length := fun e => hk (BitVec.eq_of_toNat_eq (e.trans h.count.symm))
        rcases Nat.lt_or_gt_of_ne hne with hlt | hgt
        · rw [List.getElem?_append_left hlt]
        · rw [List.getElem?_eq_none (by omega), List.getElem?_eq_none (by simp; omega)]
  · intro k hk
    rw [List.length_append]
    exact Nat.lt_succ_of_lt (h.done_lt k hk)
  · exact h.nodup
  · show (if (s.overweight s.pageIndex.overweightCount).isSome then _ else _) + _ = _
    rw [hfree, Option.isSome_none, if_neg Bool.false_ne_true, List.length_append,
      List.length_singleton, ← h.entries]
    omega

/-- Fewer indices were serviced than messages stashed while one is still waiting. -/
theorem OverweightRepr.length_done_lt (h : OverweightRepr s stashed done) {k : BitVec 64}
    {m : Message} (hk : s.overweight k = some m) : done.length < stashed.length := by
  rw [h.entry k] at hk
  split at hk
  · cases hk
  · next hnot =>
    have hlt : k.toNat < stashed.length := (List.getElem?_eq_some_iff.mp hk).1
    -- the serviced indices and `k` are distinct indices below the number stashed
    have hnd : (k.toNat :: done.map BitVec.toNat).Nodup := by
      refine List.nodup_cons.mpr ⟨fun hm => ?_, h.nodup.map fun _ _ => BitVec.eq_of_toNat_eq⟩
      obtain ⟨k', hk', he⟩ := List.mem_map.mp hm
      exact hnot (BitVec.eq_of_toNat_eq he ▸ hk')
    have hsub : (k.toNat :: done.map BitVec.toNat) ⊆ List.range stashed.length := by
      intro i hi
      rw [List.mem_range]
      rcases List.mem_cons.mp hi with rfl | hi
      · exact hlt
      · obtain ⟨k', hk', rfl⟩ := List.mem_map.mp hi
        exact h.done_lt k' hk'
    have := (hnd.subperm hsub).length_le
    simp only [List.length_cons, List.length_map, List.length_range] at this
    omega

/-- `Overweight::remove(index)` after servicing the message there. -/
theorem OverweightRepr.service (h : OverweightRepr s stashed done) {k : BitVec 64} {m : Message}
    (hk : s.overweight k = some m) :
    OverweightRepr { s with
      overweight := Function.update s.overweight k none
      overweightEntries := s.overweightEntries - 1 } stashed (done ++ [k]) := by
  have hnot : k ∉ done := fun hm => by
    rw [h.entry k, if_pos hm] at hk
    cases hk
  have hlt : k.toNat < stashed.length := by
    rw [h.entry k, if_neg hnot] at hk
    exact (List.getElem?_eq_some_iff.mp hk).1
  have hdone := h.length_done_lt hk
  constructor
  · exact h.count
  · intro k'
    show Function.update s.overweight k none k' = _
    by_cases hk' : k' = k
    · rw [hk', Function.update_self, if_pos (List.mem_append_right _ (List.mem_singleton_self k))]
    · rw [Function.update_of_ne hk', h.entry k']
      simp only [List.mem_append, List.mem_singleton, hk', or_false]
  · intro k' hk'
    rcases List.mem_append.mp hk' with hk' | hk'
    · exact h.done_lt k' hk'
    · rw [List.mem_singleton.mp hk']
      exact hlt
  · exact h.nodup.append (List.nodup_singleton k) (List.disjoint_singleton.mpr hnot)
  · show s.overweightEntries - 1 + _ = _
    have := h.entries
    rw [List.length_append, List.length_singleton]
    omega

/-! ## `do_service_queue` -/

variable {X Y : Type} (env : DmpEnv X Y)

/-- The loop over one page services a prefix of it; the rest is what it bails at. -/
theorem servicePage_spec {limit used : Weight} {processed : BitVec 8}
    {page serviced : List Message} {out : PageOutcome}
    (h : servicePage env limit page used processed serviced = some out) :
    ∃ done, out.serviced = serviced ++ done ∧ page = done ++ out.bailedAt.getD [] := by
  induction page generalizing used processed serviced with
  | nil =>
    cases h
    exact ⟨[], by simp, rfl⟩
  | cons m rest ih =>
    rw [servicePage] at h
    split at h
    · cases h
      exact ⟨[], by simp, rfl⟩
    · obtain ⟨processed', -, h⟩ := Option.bind_eq_some_iff.mp h
      split at h
      · obtain ⟨used', -, h⟩ := Option.bind_eq_some_iff.mp h
        obtain ⟨done, hsv, hpage⟩ := ih h
        exact ⟨m :: done, by simp [hsv], by simp [hpage]⟩
      · cases h
        exact ⟨[], by simp, rfl⟩

/-- The `while` loop keeps the page range well formed and the overweight store as it was, and
what it services comes off the head of the queue. -/
theorem serviceLoop_spec {limit : Weight} {fuel : Nat} {st out : Serviced}
    (h : serviceLoop env limit fuel st = some out) (hwf : PagesWf st.store) :
    PagesWf out.store ∧ out.serviced ++ out.store.queue = st.serviced ++ st.store.queue ∧
      SameOverweight st.store out.store := by
  induction fuel generalizing st with
  | zero => cases h
  | succ fuel ih =>
    rw [serviceLoop] at h
    dsimp only at h
    split at h
    · next hlt =>
      obtain ⟨out₁, hpage, h⟩ := Option.bind_eq_some_iff.mp h
      obtain ⟨done, hsv, hdone⟩ := servicePage_spec env hpage
      split at h
      · -- bailed: the rest of the page goes back at `begin_used`
        next rest hrest =>
        cases h
        rw [hrest] at hdone
        refine ⟨?_, ?_, ⟨rfl, rfl, rfl⟩⟩
        · rw [Function.update_idem]
          exact hwf.putBack hlt rest
        · rw [Function.update_idem, queue_putBack hwf hlt, queue_eq_of_lt hlt, hdone, hsv]
          simp
      · -- the page is done: move past it
        next hrest =>
        obtain ⟨b, hb, h⟩ := Option.bind_eq_some_iff.mp h
        obtain ⟨hwf', hq, hsame⟩ := ih h (hwf.advance hb hlt)
        -- the storage after the page has the overweight store of the one before
        refine ⟨hwf', ?_, ⟨hsame.1, hsame.2, hsame.3⟩⟩
        rw [hq, hsv, queue_advance hwf hb hlt, hdone, hrest]
        simp
    · split at h
      · next hnlt heq =>
        cases h
        refine ⟨hwf.reset heq, ?_, ⟨rfl, rfl, rfl⟩⟩
        rw [queue_reset, queue_eq_nil_of_not_lt hwf hnlt]
      · cases h
        exact ⟨hwf, rfl, ⟨rfl, rfl, rfl⟩⟩

/-- `do_service_queue` keeps the pages well formed, services a prefix of the queue and leaves the
rest in the store, and does not touch the overweight store. -/
theorem doServiceQueue_spec {limit : Weight} {s : DmpQueueState} {processed : BitVec 8}
    {out : Serviced} (h : doServiceQueue env limit s processed = some out) (hwf : PagesWf s) :
    PagesWf out.store ∧ out.serviced ++ out.store.queue = s.queue ∧ SameOverweight s out.store := by
  obtain ⟨hp, hq, hs⟩ := serviceLoop_spec env h hwf
  exact ⟨hp, by simpa using hq, hs⟩

/-! ## `handle_dmp_messages` -/

variable {stashed serviced received : List Message} {m : Message} {acc : HandleState}

/-- What holds between two messages of the loop of `handle_dmp_messages`, for the history
`stashed`, `serviced`, `done` before the call and the messages `received` so far. -/
structure LoopInv (stashed serviced : List Message) (done : List (BitVec 64))
    (received : List Message) (acc : HandleState) : Prop where
  pages : PagesWf acc.store
  overweight : OverweightRepr acc.store (stashed ++ acc.stashed) done
  delivery : Interleave (stashed ++ acc.stashed)
    (serviced ++ acc.serviced ++ acc.store.queue ++ acc.maybeEnqueuePage.getD []) received
  /-- Messages are executed inline only while nothing is queued. -/
  inline : acc.maybeEnqueuePage = none → acc.store.queue = []

/-- The message goes onto the new page. -/
theorem LoopInv.push (h : LoopInv stashed serviced done received acc) {page : List Message}
    (hp : acc.maybeEnqueuePage.getD [] = page) (used : Weight) (processed : BitVec 8) :
    LoopInv stashed serviced done (received ++ [m])
      { acc with used, messagesProcessed := processed, maybeEnqueuePage := some (page ++ [m]) } := by
  refine ⟨h.pages, h.overweight, ?_, fun hn => by cases hn⟩
  have := h.delivery.snoc_right m
  rw [hp] at this
  simpa using this

/-- The message is serviced inline, which happens only while nothing is queued. -/
theorem LoopInv.serviceInline (h : LoopInv stashed serviced done received acc)
    (hnone : acc.maybeEnqueuePage = none) (used : Weight) (processed : BitVec 8) :
    LoopInv stashed serviced done (received ++ [m])
      { acc with used, messagesProcessed := processed, serviced := acc.serviced ++ [m] } := by
  refine ⟨h.pages, h.overweight, ?_, h.inline⟩
  have := h.delivery.snoc_right m
  rw [h.inline hnone, hnone] at this
  show Interleave _ (serviced ++ (acc.serviced ++ [m]) ++ acc.store.queue ++
    acc.maybeEnqueuePage.getD []) _
  rw [h.inline hnone, hnone]
  simpa using this

/-- The message is stashed at `overweight_count`. -/
theorem LoopInv.stash (h : LoopInv stashed serviced done received acc) {c : BitVec 64}
    (hc : checkedAdd acc.store.pageIndex.overweightCount 1 = some c) (used : Weight)
    (processed : BitVec 8) :
    LoopInv stashed serviced done (received ++ [m])
      { acc with
        used, messagesProcessed := processed
        store := { acc.store.insertOverweight acc.store.pageIndex.overweightCount m with
          pageIndex := { acc.store.pageIndex with overweightCount := c } }
        stashed := acc.stashed ++ [m] } := by
  -- the stash leaves the pages and the page range alone
  have hq : ({ acc.store.insertOverweight acc.store.pageIndex.overweightCount m with
      pageIndex := { acc.store.pageIndex with overweightCount := c } } : DmpQueueState).queue =
      acc.store.queue := queue_congr rfl rfl rfl
  refine ⟨h.pages.congr rfl rfl rfl, ?_, ?_, fun hn => hq.trans (h.inline hn)⟩
  · rw [← List.append_assoc]
    exact h.overweight.stash hc m
  · show Interleave (stashed ++ (acc.stashed ++ [m])) (serviced ++ acc.serviced ++ _ ++ _) _
    rw [hq, ← List.append_assoc]
    exact h.delivery.snoc_left m

/-- One message of the loop: serviced inline, stashed, or put on the new page. -/
theorem handleMessage_inv {config : ConfigData} {limit : Weight} {acc' : HandleState}
    (h : handleMessage env config limit acc m = some acc')
    (hinv : LoopInv stashed serviced done received acc) :
    LoopInv stashed serviced done (received ++ [m]) acc' := by
  unfold handleMessage at h
  split at h
  · next hnone =>
    have hnone : acc.maybeEnqueuePage = none := Option.isNone_iff_eq_none.mp hnone
    have hp : acc.maybeEnqueuePage.getD [] = [] := by rw [hnone]; rfl
    split at h
    · -- the block's message limit is reached: enqueue from here on
      cases h
      exact hinv.push hp _ _
    · obtain ⟨processed, -, h⟩ := Option.bind_eq_some_iff.mp h
      split at h
      · obtain ⟨used, -, h⟩ := Option.bind_eq_some_iff.mp h
        cases h
        rw [pushEnqueued_of_none]
        · exact hinv.serviceInline hnone _ _
        · exact hnone
      · dsimp only at h
        split at h
        · obtain ⟨c, hc, h⟩ := Option.bind_eq_some_iff.mp h
          cases h
          exact hinv.stash hc _ _
        · -- needs more weight than is left, but not overweight: enqueue from here on
          cases h
          exact hinv.push hp _ _
  · next hsome =>
    obtain ⟨page, hpage⟩ : ∃ page, acc.maybeEnqueuePage = some page := by
      cases hp : acc.maybeEnqueuePage with
      | none => simp [hp] at hsome
      | some page => exact ⟨page, rfl⟩
    cases h
    rw [pushEnqueued_of_some hpage]
    exact hinv.push (by rw [hpage]; rfl) _ _

/-- The loop of `handle_dmp_messages` keeps its invariant over any list of messages, which is then
received. -/
theorem handleLoop_inv {config : ConfigData} {limit : Weight} {ms : List Message}
    {acc' : HandleState} (h : handleLoop env config limit ms acc = some acc')
    (hinv : LoopInv stashed serviced done received acc) :
    LoopInv stashed serviced done (received ++ ms) acc' := by
  induction ms generalizing acc received with
  | nil =>
    cases h
    simpa using hinv
  | cons m ms ih =>
    obtain ⟨acc₁, h₁, h⟩ := Option.bind_eq_some_iff.mp h
    simpa using ih h (handleMessage_inv env h₁ hinv)

/-- `handle_dmp_messages` keeps the invariant: the queue is serviced first, the incoming messages
are serviced inline, stashed or enqueued in order, and the new page joins the end of the queue. -/
theorem handleDmpMessages_inv {s : DmpQueueState} {iter : List Message} {limit : Weight}
    {out : Handled} (h : handleDmpMessages env s iter limit = some out) (hp : PagesWf s)
    (ho : OverweightRepr s stashed done) (hd : Interleave stashed (serviced ++ s.queue) received) :
    PagesWf out.store ∧ OverweightRepr out.store (stashed ++ out.stashed) done ∧
      Interleave (stashed ++ out.stashed) (serviced ++ out.serviced ++ out.store.queue)
        (received ++ iter) := by
  unfold handleDmpMessages at h
  obtain ⟨q, hq, h⟩ := Option.bind_eq_some_iff.mp h
  obtain ⟨hqp, hqq, hqo⟩ := doServiceQueue_spec env hq hp
  obtain ⟨acc, hacc, h⟩ := Option.bind_eq_some_iff.mp h
  have hinv₀ : LoopInv stashed serviced done received
      ⟨q.used, q.messagesProcessed, q.store,
        if q.store.pageIndex.beginUsed < q.store.pageIndex.endUsed then some [] else none,
        q.serviced, []⟩ := by
    refine ⟨hqp, by simpa using ho.of_same hqo, ?_, fun hn => ?_⟩
    · have hp₀ : (if q.store.pageIndex.beginUsed < q.store.pageIndex.endUsed then some []
          else none : Option (List Message)).getD [] = [] := by split <;> rfl
      rw [← hqq] at hd
      simpa [hp₀] using hd
    · apply queue_eq_nil_of_not_lt hqp
      intro hlt
      rw [if_pos hlt] at hn
      cases hn
  have hinv := handleLoop_inv env hacc hinv₀
  split at h
  · -- the new page is written at `end_used`
    next page hpage =>
    obtain ⟨e, he, h⟩ := Option.bind_eq_some_iff.mp h
    cases h
    refine ⟨hinv.pages.push he page, hinv.overweight.of_same ⟨rfl, rfl, rfl⟩, ?_⟩
    have hd' := hinv.delivery
    rw [hpage] at hd'
    rw [queue_push hinv.pages he]
    simpa using hd'
  · next hpage =>
    cases h
    refine ⟨hinv.pages, hinv.overweight, ?_⟩
    have hd' := hinv.delivery
    rw [hpage] at hd'
    simpa using hd'

/-! ## `service_overweight` -/

/-- `service_overweight` of a stashed message keeps the pages and the queue, and records the index
as serviced. -/
theorem serviceOverweight_inv {s s' : DmpQueueState} {index : BitVec 64} {weightLimit w : Weight}
    (h : serviceOverweight env s index weightLimit = .ok (w, s')) (hp : PagesWf s)
    (ho : OverweightRepr s stashed done) :
    PagesWf s' ∧ OverweightRepr s' stashed (done ++ [index]) ∧ s'.queue = s.queue := by
  unfold serviceOverweight at h
  split at h
  · cases h
  · next sentAt data hm =>
    split at h
    · cases h
    · obtain ⟨-, rfl⟩ := Prod.mk.inj (Except.ok.inj h)
      exact ⟨hp.congr rfl rfl rfl, ho.service hm, queue_congr rfl rfl rfl⟩

/-! ## Runs of the pallet -/

/-- What a run has moved so far: the messages received by `handle_dmp_messages`, those serviced
inline or from the queue, those stashed in `Overweight`, and the indices `service_overweight`
serviced. -/
structure DmpHistory where
  received : List Message
  serviced : List Message
  stashed : List Message
  overweightServiced : List (BitVec 64)

/-- The pallet's storage with the history of the run that reached it. -/
structure DmpRun where
  store : DmpQueueState
  history : DmpHistory

/-- Genesis: empty storage, nothing received. -/
def DmpRun.genesis : DmpRun := ⟨DmpQueueState.empty, ⟨[], [], [], []⟩⟩

/-- The calls into the pallet, each with the executor it meets. -/
inductive DmpCall (X Y : Type) where
  /-- `handle_dmp_messages(iter, limit)`, from `set_validation_data` of parachain-system. -/
  | handleDmpMessages (env : DmpEnv X Y) (iter : List Message) (limit : Weight)
  /-- `on_idle(_, max_weight)`, that is `service_queue(max_weight)`. -/
  | onIdle (env : DmpEnv X Y) (maxWeight : Weight)
  /-- The `service_overweight(index, weight_limit)` extrinsic. -/
  | serviceOverweight (env : DmpEnv X Y) (index : BitVec 64) (weightLimit : Weight)

/-- One call. A panic is `none`; a failed `service_overweight` changes nothing. -/
def dmpStep (r : DmpRun) : DmpCall X Y → Option DmpRun
  | .handleDmpMessages env iter limit =>
    (handleDmpMessages env r.store iter limit).map fun out =>
      ⟨out.store, { r.history with
        received := r.history.received ++ iter
        serviced := r.history.serviced ++ out.serviced
        stashed := r.history.stashed ++ out.stashed }⟩
  | .onIdle env maxWeight =>
    (serviceQueue env maxWeight r.store).map fun out =>
      ⟨out.store, { r.history with serviced := r.history.serviced ++ out.serviced }⟩
  | .serviceOverweight env index weightLimit =>
    match serviceOverweight env r.store index weightLimit with
    | .ok (_, s) =>
      some ⟨s, { r.history with
        overweightServiced := r.history.overweightServiced ++ [index] }⟩
    | .error _ => some r

/-- The delivery invariant of a run. -/
structure DmpRun.Delivered (r : DmpRun) : Prop where
  pages : PagesWf r.store
  overweight : OverweightRepr r.store r.history.stashed r.history.overweightServiced
  delivery : Interleave r.history.stashed (r.history.serviced ++ r.store.queue) r.history.received

/-- Genesis satisfies the delivery invariant. -/
theorem delivered_genesis : DmpRun.genesis.Delivered :=
  ⟨pagesWf_empty, overweightRepr_empty, .nil⟩

/-- Every call keeps the invariant. -/
theorem dmpStep_delivered {r r' : DmpRun} {call : DmpCall X Y} (h : dmpStep r call = some r')
    (hr : r.Delivered) : r'.Delivered := by
  cases call with
  | handleDmpMessages env iter limit =>
    obtain ⟨out, hout, rfl⟩ := Option.map_eq_some_iff.mp h
    obtain ⟨hp, ho, hd⟩ := handleDmpMessages_inv env hout hr.pages hr.overweight hr.delivery
    exact ⟨hp, ho, by simpa using hd⟩
  | onIdle env maxWeight =>
    obtain ⟨out, hout, rfl⟩ := Option.map_eq_some_iff.mp h
    obtain ⟨hp, hq, hs⟩ := doServiceQueue_spec env hout hr.pages
    refine ⟨hp, hr.overweight.of_same hs, ?_⟩
    show Interleave _ (r.history.serviced ++ out.serviced ++ out.store.queue) _
    rw [List.append_assoc, hq]
    exact hr.delivery
  | serviceOverweight env index weightLimit =>
    simp only [dmpStep] at h
    split at h
    · next w s hs =>
      cases h
      obtain ⟨hp, ho, hq⟩ := serviceOverweight_inv env hs hr.pages hr.overweight
      exact ⟨hp, ho, hq ▸ hr.delivery⟩
    · cases h
      exact hr

/-- Every reachable state satisfies the delivery invariant. -/
theorem delivered_of_reachable {r : DmpRun} (h : Reachable (@dmpStep X Y) DmpRun.genesis r) :
    r.Delivered :=
  h.invariant delivered_genesis fun _ _ _ hr hs => dmpStep_delivered hs hr

/-- **Delivery.** In every state a run of `handle_dmp_messages`, `on_idle` and
`service_overweight` reaches, under any executor at every call: the page range is well formed and
nothing lies outside it; every overweight key is below `overweight_count`; the messages received
interleave those stashed with those serviced followed by those queued; and `Overweight` holds the
`k`-th stashed message until `service_overweight` services it, which it does at most once. -/
theorem dmpQueue_delivers_each_message_once {r : DmpRun}
    (h : Reachable (@dmpStep X Y) DmpRun.genesis r) :
    r.store.pageIndex.beginUsed ≤ r.store.pageIndex.endUsed ∧
    (∀ i, i < r.store.pageIndex.beginUsed ∨ r.store.pageIndex.endUsed ≤ i →
      r.store.pages i = []) ∧
    (∀ k, (r.store.overweight k).isSome → k < r.store.pageIndex.overweightCount) ∧
    Interleave r.history.stashed (r.history.serviced ++ r.store.queue) r.history.received ∧
    r.history.overweightServiced.Nodup ∧
    (∀ k, r.store.overweight k =
      if k ∈ r.history.overweightServiced then none else r.history.stashed[k.toNat]?) := by
  have hr := delivered_of_reachable h
  exact ⟨hr.pages.begin_le_end, hr.pages.empty_outside, fun _ => hr.overweight.lt_count,
    hr.delivery, hr.overweight.nodup, hr.overweight.entry⟩

/-- An executor that runs every message in no weight, except that the second message of a call
needs more than `max_individual` and the third more than a limit of zero. -/
def stashingEnv : DmpEnv Unit Unit where
  decodeAll := fun _ => some ()
  tryFrom := fun _ => some ()
  execute := fun n _ _ =>
    if n = 2 then .error (.weightLimitReached (Weight.fromParts (BitVec.ofNat 64 (10 ^ 12)) 0))
    else if n = 3 then .error (.weightLimitReached (Weight.fromParts 1 0))
    else .complete Weight.zero
  dbRead := Weight.zero

/-- Four messages with no weight to spare: the first is serviced inline, the second stashed, the
last two queued; `on_idle` services the third and bails at the fourth; `service_overweight`
services the second. -/
def stashingCalls : List (DmpCall Unit Unit) :=
  [.handleDmpMessages stashingEnv [(1, [1]), (2, [2]), (3, [3]), (4, [4])] Weight.zero,
    .onIdle stashingEnv Weight.zero, .serviceOverweight stashingEnv 0 Weight.zero]

/-- After `stashingCalls`, the first and third messages have been serviced, the second stashed
and the fourth is still queued; the delivery invariant holds of the state. -/
theorem dmpQueue_delivers_stashed_and_queued :
    ∃ r, runSteps dmpStep DmpRun.genesis stashingCalls = some r ∧
      r.history.serviced = [(1, [1]), (3, [3])] ∧ r.history.stashed = [(2, [2])] ∧
      r.store.queue = [(4, [4])] ∧
    r.store.pageIndex.beginUsed ≤ r.store.pageIndex.endUsed ∧
    (∀ i, i < r.store.pageIndex.beginUsed ∨ r.store.pageIndex.endUsed ≤ i →
      r.store.pages i = []) ∧
    (∀ k, (r.store.overweight k).isSome → k < r.store.pageIndex.overweightCount) ∧
    Interleave r.history.stashed (r.history.serviced ++ r.store.queue) r.history.received ∧
    r.history.overweightServiced.Nodup ∧
    (∀ k, r.store.overweight k =
      if k ∈ r.history.overweightServiced then none else r.history.stashed[k.toNat]?) :=
  ⟨_, rfl, rfl, rfl, rfl, dmpQueue_delivers_each_message_once
    (Reachable.of_runSteps (show runSteps dmpStep DmpRun.genesis stashingCalls = some _ from rfl))⟩

end Cumulus.DmpQueue
