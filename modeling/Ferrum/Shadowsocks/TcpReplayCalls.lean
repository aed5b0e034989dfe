import Ferrum.Shadowsocks.TcpReplayStore

namespace Ferrum.Shadowsocks.TcpReplayStore

open Option List

variable {Salt : Type} [DecidableEq Salt]

/-- The calls of `check_and_insert`, a call being a salt and an instant, in the order of the lock. -/
def run (store : TcpReplayStore Salt) (calls : List (Salt × Nat)) : TcpReplayStore Salt :=
  calls.foldl (fun store call => (store.checkAndInsert call.1 call.2).1) store

/-- The call at this place of the sequence was accepted. -/
def AcceptedAt (capacity : Nat) (calls : List (Salt × Nat)) (salt : Salt) (instant : Nat) : Prop :=
  ∃ before after, calls = before ++ (salt, instant) :: after ∧
    (((new capacity).run before).checkAndInsert salt instant).2 = .ok ()

theorem run_snoc (store : TcpReplayStore Salt) (calls : List (Salt × Nat)) (call : Salt × Nat) :
    store.run (calls ++ [call]) = ((store.run calls).checkAndInsert call.1 call.2).1 := by
  simp [run]

variable {capacity instant : Nat} {calls : List (Salt × Nat)} {salt : Salt}

theorem AcceptedAt.snoc (accepted : AcceptedAt capacity calls salt instant) (call : Salt × Nat) :
    AcceptedAt capacity (calls ++ [call]) salt instant := by
  obtain ⟨before, after, shape, ok⟩ := accepted
  exact ⟨before, after ++ [call], by rw [shape]; simp, ok⟩

/-- The queue lists the keys of the map, each once, and the map is within its capacity. -/
structure Listed (store : TcpReplayStore Salt) : Prop where
  nodup : store.insertionOrder.Nodup
  keys : ∀ salt, salt ∈ store.insertionOrder ↔ salt ∈ store.entries
  capped : store.entries.len ≤ store.capacity

/-- The queue is ordered by the instants of its entries, none of which is behind the last call. -/
structure Ordered (store : TcpReplayStore Salt) (last : Nat) : Prop where
  sorted : store.insertionOrder.Pairwise fun first second => ∀ early late,
    store.entries.lookup first = some early → store.entries.lookup second = some late → early ≤ late
  past : ∀ salt instant, store.entries.lookup salt = some instant → instant ≤ last

theorem purgeExpired_spec (now : Nat) (order : List Salt) : ∀ entries : HashMap Salt Nat, order.Nodup →
    (∀ salt ∈ order, salt ∈ entries) → ∃ dropped kept, order = dropped ++ kept ∧
      (purgeExpired now entries order).2 = kept ∧
      (∀ salt, (purgeExpired now entries order).1.lookup salt = if salt ∈ dropped then none else entries.lookup salt) ∧
      (∀ salt ∈ kept.head?, ∀ instant, entries.lookup salt = some instant → now < instant + replayRetention) := by
  induction order with
  | nil =>
    intro entries _ _
    exact ⟨[], [], rfl, rfl, fun salt => by simp [purgeExpired], by simp⟩
  | cons oldest rest ih =>
    intro entries nodup keys
    obtain ⟨fresh, restNodup⟩ := nodup_cons.mp nodup
    obtain ⟨inserted, found⟩ := isSome_iff_exists.mp (AList.lookup_isSome.mpr (keys oldest mem_cons_self))
    have stop : now < inserted + replayRetention → purgeExpired now entries (oldest :: rest) = (entries, oldest :: rest) →
        ∃ dropped kept, oldest :: rest = dropped ++ kept ∧ (purgeExpired now entries (oldest :: rest)).2 = kept ∧
          (∀ salt, (purgeExpired now entries (oldest :: rest)).1.lookup salt =
            if salt ∈ dropped then none else entries.lookup salt) ∧
          (∀ salt ∈ kept.head?, ∀ instant, entries.lookup salt = some instant → now < instant + replayRetention) := by
      intro young same
      rw [same]
      refine ⟨[], oldest :: rest, rfl, rfl, fun salt => by simp, ?_⟩
      rintro salt ⟨⟩ instant at_salt
      cases some.inj (found.symm.trans at_salt)
      exact young
    by_cases expired : inserted + replayRetention ≤ now
    · have unfolded : purgeExpired now entries (oldest :: rest) = purgeExpired now (entries.erase oldest) rest := by
        rw [purgeExpired, found]
        simp only [durationSince, if_pos (show inserted ≤ now by omega), if_pos (show now - inserted ≥ replayRetention by omega)]
      have later : ∀ salt ∈ rest, salt ∈ entries.erase oldest := by
        intro salt member
        refine AList.mem_erase.mpr ⟨?_, keys salt (mem_cons_of_mem _ member)⟩
        rintro rfl
        exact fresh member
      obtain ⟨dropped, kept, shape, queue, lookups, young⟩ := ih (entries.erase oldest) restNodup later
      rw [unfolded]
      refine ⟨oldest :: dropped, kept, by rw [shape]; rfl, queue, ?_, ?_⟩
      · intro salt
        rw [lookups, HashMap.lookup_erase_eq]
        by_cases same : salt = oldest
        · simp [same]
        · simp [same]
      · intro salt head instant at_salt
        refine young salt head instant ?_
        have inside : salt ∈ rest := by
          rw [shape]
          exact mem_append_right _ (mem_of_mem_head? head)
        have different : salt ≠ oldest := by
          rintro rfl
          exact fresh inside
        rw [AList.lookup_erase_ne different]
        exact at_salt
    · refine stop (by omega) ?_
      rw [purgeExpired, found]
      by_cases reversed : inserted ≤ now
      · simp only [durationSince, if_pos reversed, if_neg (show ¬now - inserted ≥ replayRetention by omega)]
      · simp only [durationSince, if_neg reversed]

def purged (store : TcpReplayStore Salt) (now : Nat) : TcpReplayStore Salt :=
  ⟨store.capacity, (purgeExpired now store.entries store.insertionOrder).1,
    (purgeExpired now store.entries store.insertionOrder).2⟩

variable {store : TcpReplayStore Salt}

omit [DecidableEq Salt] in
theorem Listed.len_eq (listed : store.Listed) : store.entries.len = store.insertionOrder.length := by
  rw [HashMap.len_eq_keys]
  refine ((perm_ext_iff_of_nodup store.entries.keys_nodup listed.nodup).mpr fun salt => ?_).length_eq
  rw [listed.keys, AList.mem_keys]

theorem Listed.purge (listed : store.Listed) (now : Nat) :
    ∃ dropped, store.insertionOrder = dropped ++ (store.purged now).insertionOrder ∧
      (∀ salt, (store.purged now).entries.lookup salt = if salt ∈ dropped then none else store.entries.lookup salt) ∧
      ∀ salt ∈ (store.purged now).insertionOrder.head?, ∀ instant, (store.purged now).entries.lookup salt = some instant →
        now < instant + replayRetention := by
  obtain ⟨dropped, kept, shape, queue, lookups, young⟩ :=
    purgeExpired_spec now store.insertionOrder store.entries listed.nodup fun salt => (listed.keys salt).mp
  refine ⟨dropped, by rw [shape]; exact congrArg (dropped ++ ·) queue.symm, lookups, ?_⟩
  intro salt head instant at_salt
  change salt ∈ (purgeExpired now store.entries store.insertionOrder).2.head? at head
  rw [queue] at head
  refine young salt head instant ?_
  have found := lookups salt
  rw [show (purgeExpired now store.entries store.insertionOrder).1.lookup salt = some instant from at_salt] at found
  split at found
  · cases found
  · exact found.symm

theorem Listed.purged (listed : store.Listed) (now : Nat) : (store.purged now).Listed := by
  obtain ⟨dropped, shape, lookups, -⟩ := listed.purge now
  have nodup := listed.nodup
  rw [shape] at nodup
  have keys : ∀ salt, salt ∈ (store.purged now).insertionOrder ↔ salt ∈ (store.purged now).entries := by
    intro salt
    rw [← AList.lookup_isSome, lookups]
    split
    · rename_i gone
      simp only [isSome_none, Bool.false_eq_true, iff_false]
      exact fun kept => (nodup_append.mp nodup).2.2 salt gone salt kept rfl
    · rename_i kept
      rw [AList.lookup_isSome, ← listed.keys, shape, mem_append]
      simp only [kept, false_or]
  have fewer : (store.purged now).entries.len ≤ store.entries.len := by
    refine HashMap.len_le fun salt member => ?_
    rw [← AList.lookup_isSome, lookups] at member
    split at member
    · cases member
    · exact AList.lookup_isSome.mp member
  exact ⟨(nodup_append.mp nodup).2.1, keys, fewer.trans listed.capped⟩

theorem checkAndInsert_cases (store : TcpReplayStore Salt) (salt : Salt) (now : Nat) :
    (salt ∈ (store.purged now).entries ∧ store.checkAndInsert salt now = (store.purged now, .error .duplicate)) ∨
    (salt ∉ (store.purged now).entries ∧ (store.purged now).entries.len = store.capacity ∧
      store.checkAndInsert salt now = (store.purged now, .error .capacity)) ∨
    (salt ∉ (store.purged now).entries ∧ (store.purged now).entries.len ≠ store.capacity ∧
      store.checkAndInsert salt now = (⟨store.capacity, (store.purged now).entries.insert salt now,
        (store.purged now).insertionOrder ++ [salt]⟩, .ok ())) := by
  by_cases member : salt ∈ (store.purged now).entries
  · exact .inl ⟨member, if_pos member⟩
  · refine .inr ?_
    by_cases full : (store.purged now).entries.len = store.capacity
    · exact .inl ⟨member, full, (if_neg member).trans (if_pos full)⟩
    · exact .inr ⟨member, full, (if_neg member).trans (if_neg full)⟩

theorem Listed.checkAndInsert (listed : store.Listed) (salt : Salt) (now : Nat) :
    (store.checkAndInsert salt now).1.Listed := by
  have purged := listed.purged now
  rcases store.checkAndInsert_cases salt now with ⟨-, same⟩ | ⟨-, -, same⟩ | ⟨absent, room, same⟩
  · rw [same]
    exact purged
  · rw [same]
    exact purged
  · rw [same]
    refine ⟨?_, fun other => ?_, ?_⟩
    · exact nodup_append.mpr ⟨purged.nodup, nodup_singleton salt, fun first inside second last => by
        rintro rfl
        cases mem_singleton.mp last
        exact absent ((purged.keys _).mp inside)⟩
    · simp only [mem_append, mem_singleton, purged.keys, AList.mem_insert]
      exact or_comm
    · have capped := purged.capped
      change HashMap.len ((store.purged now).entries.insert salt now) ≤ store.capacity
      rw [HashMap.len_insert now absent]
      exact lt_of_le_of_ne capped room

omit [DecidableEq Salt] in
theorem new_listed (capacity : Nat) : (new capacity : TcpReplayStore Salt).Listed :=
  ⟨nodup_nil, fun salt => by simp [new], by simp [new]⟩

theorem Listed.run (capacity : Nat) (calls : List (Salt × Nat)) : ((new capacity).run calls).Listed := by
  induction calls using List.reverseRecOn with
  | nil => exact new_listed capacity
  | append_singleton calls call ih =>
    rw [run_snoc]
    exact ih.checkAndInsert call.1 call.2

theorem run_capacity (capacity : Nat) (calls : List (Salt × Nat)) : ((new capacity).run calls).capacity = capacity := by
  induction calls using List.reverseRecOn with
  | nil => rfl
  | append_singleton calls call ih =>
    rw [run_snoc]
    rcases ((new capacity).run calls).checkAndInsert_cases call.1 call.2 with ⟨-, same⟩ | ⟨-, -, same⟩ | ⟨-, -, same⟩ <;>
    · rw [same]
      exact ih

variable {now : Nat}

theorem checkAndInsert_refused {error : ReplayInsertError} (refused : (store.checkAndInsert salt now).2 = .error error) :
    (store.checkAndInsert salt now).1 = store.purged now := by
  rcases store.checkAndInsert_cases salt now with ⟨-, same⟩ | ⟨-, -, same⟩ | ⟨-, -, same⟩
  · rw [same]
  · rw [same]
  · rw [same] at refused
    cases refused

theorem lookup_purged (found : (store.purged now).entries.lookup salt = some instant) (listed : store.Listed) :
    store.entries.lookup salt = some instant := by
  obtain ⟨dropped, -, lookups, -⟩ := listed.purge now
  rw [lookups] at found
  split at found
  · cases found
  · exact found

theorem lookup_checkAndInsert {other : Salt} (listed : store.Listed)
    (found : (store.checkAndInsert salt now).1.entries.lookup other = some instant) :
    store.entries.lookup other = some instant ∨
      other = salt ∧ instant = now ∧ (store.checkAndInsert salt now).2 = .ok () := by
  rcases store.checkAndInsert_cases salt now with ⟨-, same⟩ | ⟨-, -, same⟩ | ⟨-, -, same⟩
  · rw [same] at found
    exact .inl (lookup_purged found listed)
  · rw [same] at found
    exact .inl (lookup_purged found listed)
  · rw [same] at found ⊢
    change ((store.purged now).entries.insert salt now).lookup other = some instant at found
    rw [HashMap.lookup_insert_eq] at found
    split at found
    · rename_i isNew
      exact .inr ⟨isNew, (some.inj found).symm, rfl⟩
    · exact .inl (lookup_purged found listed)

theorem run_accepted (found : ((new capacity).run calls).entries.lookup salt = some instant) :
    AcceptedAt capacity calls salt instant := by
  induction calls using List.reverseRecOn with
  | nil => cases found
  | append_singleton calls call ih =>
    rw [run_snoc] at found
    rcases lookup_checkAndInsert (Listed.run capacity calls) found with old | ⟨rfl, rfl, ok⟩
    · exact (ih old).snoc call
    · exact ⟨calls, [], rfl, ok⟩

theorem run_retained (found : store.entries.lookup salt = some instant)
    (young : ∀ call ∈ calls, call.2 < instant + replayRetention) :
    (store.run calls).entries.lookup salt = some instant := by
  induction calls generalizing store with
  | nil => exact found
  | cons call calls ih =>
    exact ih (checkAndInsert_retained found (young call mem_cons_self)).1 fun later member =>
      young later (mem_cons_of_mem _ member)

variable {last : Nat}

theorem Ordered.purged (ordered : store.Ordered last) (listed : store.Listed) (now : Nat) :
    (store.purged now).Ordered last := by
  obtain ⟨dropped, shape, -, -⟩ := listed.purge now
  have sorted := ordered.sorted
  rw [shape] at sorted
  refine ⟨(pairwise_append.mp sorted).2.1.imp ?_, fun salt instant found => ?_⟩
  · exact fun before early late atFirst atSecond =>
      before early late (lookup_purged atFirst listed) (lookup_purged atSecond listed)
  · exact ordered.past salt instant (lookup_purged found listed)

theorem Ordered.young (ordered : store.Ordered last) (listed : store.Listed)
    (found : (store.purged now).entries.lookup salt = some instant) : now < instant + replayRetention := by
  obtain ⟨-, -, -, head⟩ := listed.purge now
  have sorted := (ordered.purged listed now).sorted
  have member := ((listed.purged now).keys salt).mpr (HashMap.mem_of_lookup found)
  have keys := (listed.purged now).keys
  generalize (store.purged now).insertionOrder = order at head sorted member keys
  cases order with
  | nil => cases member
  | cons oldest rest =>
    obtain ⟨early, atOldest⟩ := isSome_iff_exists.mp (AList.lookup_isSome.mpr ((keys oldest).mp mem_cons_self))
    have fresh := head oldest rfl early atOldest
    rcases mem_cons.mp member with rfl | inside
    · cases some.inj (found.symm.trans atOldest)
      exact fresh
    · have order := (pairwise_cons.mp sorted).1 salt inside early instant atOldest found
      omega

theorem Ordered.checkAndInsert (ordered : store.Ordered last) (listed : store.Listed) (later : last ≤ now) (salt : Salt) :
    (store.checkAndInsert salt now).1.Ordered now := by
  obtain ⟨sorted, past⟩ := ordered.purged listed now
  have keys := (listed.purged now).keys
  have until_now : ∀ salt instant, (store.purged now).entries.lookup salt = some instant → instant ≤ now :=
    fun salt instant found => (past salt instant found).trans later
  rcases store.checkAndInsert_cases salt now with ⟨-, same⟩ | ⟨-, -, same⟩ | ⟨absent, -, same⟩
  · rw [same]
    exact ⟨sorted, until_now⟩
  · rw [same]
    exact ⟨sorted, until_now⟩
  · rw [same]
    have other : ∀ kept ∈ (store.purged now).insertionOrder,
        ((store.purged now).entries.insert salt now).lookup kept = (store.purged now).entries.lookup kept := by
      intro kept member
      refine AList.lookup_insert_ne ?_
      rintro rfl
      exact absent ((keys _).mp member)
    refine ⟨pairwise_append.mpr ⟨?_, pairwise_singleton _ _, ?_⟩, ?_⟩
    · refine sorted.imp_of_mem fun first second before early late atFirst atSecond => ?_
      rw [other _ first] at atFirst
      rw [other _ second] at atSecond
      exact before early late atFirst atSecond
    · intro first member second isNew early late atFirst atSecond
      cases mem_singleton.mp isNew
      rw [other first member] at atFirst
      rw [AList.lookup_insert] at atSecond
      cases some.inj atSecond
      exact until_now first early atFirst
    · intro kept instant found
      change ((store.purged now).entries.insert salt now).lookup kept = some instant at found
      rw [HashMap.lookup_insert_eq] at found
      split at found
      · exact (some.inj found).ge
      · exact until_now kept instant found

theorem Ordered.run (times : (calls.map Prod.snd).Pairwise (· ≤ ·)) (bounded : ∀ call ∈ calls, call.2 ≤ last) :
    ((new capacity).run calls).Ordered last := by
  induction calls using List.reverseRecOn generalizing last with
  | nil => exact ⟨.nil, fun salt instant found => by cases found⟩
  | append_singleton calls call ih =>
    rw [run_snoc]
    rw [map_append, pairwise_append] at times
    obtain ⟨earlier, -, before⟩ := times
    have ordered := (@ih call.2 earlier fun other member =>
      before other.2 (mem_map_of_mem member) call.2 (by simp)).checkAndInsert (Listed.run capacity calls) le_rfl call.1
    have within := bounded call (by simp)
    exact ⟨ordered.sorted, fun salt instant found => (ordered.past salt instant found).trans within⟩

/-- After any calls the queue is the list of the keys, within the capacity; an accepted salt stays a duplicate for the
retention; and where time does not run backwards a full store holds only salts of the retention. -/
theorem checkAndInsert_exact (capacity : Nat) (calls : List (Salt × Nat)) :
    let store := (new capacity).run calls
    store.insertionOrder.Nodup ∧ (∀ salt, salt ∈ store.insertionOrder ↔ salt ∈ store.entries) ∧
    store.entries.len ≤ capacity ∧
    (∀ before salt instant after, calls = before ++ (salt, instant) :: after →
      (((new capacity).run before).checkAndInsert salt instant).2 = .ok () →
      (∀ call ∈ after, call.2 < instant + replayRetention) →
      ∀ now < instant + replayRetention, (store.checkAndInsert salt now).2 = .error .duplicate) ∧
    (∀ salt now error, (store.checkAndInsert salt now).2 = .error error →
      (store.checkAndInsert salt now).1.insertionOrder <:+ store.insertionOrder ∧
      ∀ other instant, (store.checkAndInsert salt now).1.entries.lookup other = some instant →
        store.entries.lookup other = some instant) ∧
    ((calls.map Prod.snd).Pairwise (· ≤ ·) → ∀ salt now, (∀ call ∈ calls, call.2 ≤ now) →
      (store.checkAndInsert salt now).2 = .error .capacity → ∃ salts : List Salt, salts.Nodup ∧ salts.length = capacity ∧
        ∀ other ∈ salts, ∃ instant, instant ≤ now ∧ now < instant + replayRetention ∧
          AcceptedAt capacity calls other instant) := by
  intro store
  have listed : store.Listed := Listed.run capacity calls
  have sameCapacity : store.capacity = capacity := run_capacity capacity calls
  refine ⟨listed.nodup, listed.keys, sameCapacity ▸ listed.capped, ?_, ?_, ?_⟩
  · intro before salt instant after shape ok young now recent
    have found : store.entries.lookup salt = some instant := by
      have continued : store = ((((new capacity).run before).checkAndInsert salt instant).1).run after := by
        change (new capacity).run calls = _
        rw [shape]
        simp [run]
      rw [continued]
      exact run_retained (checkAndInsert_inserted ok) young
    exact (checkAndInsert_retained found recent).2 rfl
  · intro salt now error refused
    rw [checkAndInsert_refused refused]
    obtain ⟨dropped, shape, -, -⟩ := listed.purge now
    exact ⟨⟨dropped, shape.symm⟩, fun other instant found => lookup_purged found listed⟩
  · intro times salt now bounded refused
    have ordered : store.Ordered now := Ordered.run times bounded
    have full : (store.purged now).entries.len = capacity := by
      rcases store.checkAndInsert_cases salt now with ⟨-, same⟩ | ⟨-, full, -⟩ | ⟨-, -, same⟩
      · rw [same] at refused
        cases refused
      · exact full.trans sameCapacity
      · rw [same] at refused
        cases refused
    refine ⟨(store.purged now).insertionOrder, (listed.purged now).nodup, (listed.purged now).len_eq.symm.trans full, ?_⟩
    intro other member
    obtain ⟨instant, found⟩ := isSome_iff_exists.mp
      (AList.lookup_isSome.mpr (((listed.purged now).keys other).mp member))
    have held := lookup_purged found listed
    exact ⟨instant, ordered.past other instant held, ordered.young listed found, run_accepted held⟩

end Ferrum.Shadowsocks.TcpReplayStore
