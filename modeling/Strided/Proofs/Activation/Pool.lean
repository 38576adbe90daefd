import Mathlib.Data.Finset.Dedup
import Mathlib.Data.Finset.Card
import Strided.Activation.Pool
/-!
# What a pool shares

A pool hands out one descriptor for each activation in use, though it is never told when a handle is
given up: who holds what is told to it with the next request.  `Pool.Serves` says what holds of a
pool and those who hold its descriptors.  A request keeps it (`Serves.request`), and so does giving
up handles, of which the pool learns nothing (`Serves.subset`).  Everything else is read off it.

`Lending.run_shared` is about all that can happen to one pool and its handles, in any order:
requests, clones and drops.

* Two handles are the same descriptor exactly if the same activation was asked for, by its bits.
* As many descriptors are live as there are activations with a handle.
* A descriptor is made exactly if nobody holds one of the activation, and the pool then keeps the
  live ones and nothing else.
-/

namespace Strided

/-! ## 1. A pool and those it serves

A pool keeps an entry for every descriptor that it has made and not yet seen to be unheld, so some
of its entries may be dead.  A request looks among the live ones alone, and forgets the dead ones
when it makes another (`prune`, `insert`); so no two entries are ever of one activation, dead ones
included. -/

namespace Pool

/-- **The pool serves those who hold descriptors**: what is held is among its entries, which differ
in their numbers and in their activations. -/
structure Serves (pool : Pool) (held : List Descriptor) : Prop where
  known : ∀ descriptor ∈ held, descriptor ∈ pool.entries
  below : ∀ entry ∈ pool.entries, entry.id < pool.fresh
  ids : (pool.entries.map Descriptor.id).Nodup
  activations : (pool.entries.map Descriptor.activation).Nodup

/-- A new pool serves those who hold nothing. -/
theorem serves_empty : empty.Serves [] :=
  ⟨by simp, by simp [empty], .nil, .nil⟩

/-- An entry is live as long as somebody holds its number. -/
theorem mem_liveEntries {pool : Pool} {held : List Nat} {entry : Descriptor} :
    entry ∈ pool.liveEntries held ↔ entry ∈ pool.entries ∧ entry.id ∈ held := by
  simp [liveEntries]

/-- What a pool hands out is of the activation asked for. -/
theorem activation_request (pool : Pool) (held : List Nat) (activation : Activation) :
    (pool.request held activation).1.activation = activation := by
  unfold request
  split
  next entry hfound => simpa using List.find?_some hfound
  next => rfl

namespace Serves

variable {pool : Pool} {held held' : List Descriptor} {activation : Activation}

/-- Handles may be given up without the pool knowing. -/
theorem subset (h : pool.Serves held) (hsubset : ∀ d ∈ held', d ∈ held) : pool.Serves held' :=
  ⟨fun d hd => h.known d (hsubset d hd), h.below, h.ids, h.activations⟩

/-- The live entries are what is held. -/
theorem mem_liveEntries_iff (h : pool.Serves held) {entry : Descriptor} :
    entry ∈ pool.liveEntries (held.map Descriptor.id) ↔ entry ∈ held := by
  rw [mem_liveEntries]
  constructor
  · rintro ⟨hentry, hid⟩
    obtain ⟨d, hd, hsame⟩ := List.mem_map.mp hid
    -- numbers tell entries apart, so the entry with the number of `d` is `d`
    exact List.inj_on_of_nodup_map h.ids (h.known d hd) hentry hsame ▸ hd
  · intro hentry
    exact ⟨h.known entry hentry, List.mem_map_of_mem hentry⟩

/-- Of one activation one descriptor is held. -/
theorem eq_of_activation_eq (h : pool.Serves held) {a b : Descriptor} (ha : a ∈ held)
    (hb : b ∈ held) (hsame : a.activation = b.activation) : a = b :=
  List.inj_on_of_nodup_map h.activations (h.known a ha) (h.known b hb) hsame

/-- Among what is held, numbers tell descriptors apart. -/
theorem eq_of_id_eq (h : pool.Serves held) {a b : Descriptor} (ha : a ∈ held) (hb : b ∈ held)
    (hsame : a.id = b.id) : a = b :=
  List.inj_on_of_nodup_map h.ids (h.known a ha) (h.known b hb) hsame

/-- **As many entries are live as activations are held.** -/
theorem live_eq (h : pool.Serves held) :
    pool.live (held.map Descriptor.id) = (held.map Descriptor.activation).toFinset.card := by
  have hnodup : ((pool.liveEntries (held.map Descriptor.id)).map Descriptor.activation).Nodup :=
    h.activations.sublist (List.filter_sublist.map _)
  have hsame : ((pool.liveEntries (held.map Descriptor.id)).map Descriptor.activation).toFinset
      = (held.map Descriptor.activation).toFinset := by
    ext activation
    simp [h.mem_liveEntries_iff]
  rw [live, ← hsame, List.toFinset_card_of_nodup hnodup, List.length_map]

/-- **What a request comes to**: the descriptor that somebody holds, or, if nobody does, a new one
in a pool that keeps the live entries beside it. -/
theorem request_cases (h : pool.Serves held) (activation : Activation) :
    (∃ d ∈ held, d.activation = activation ∧
      pool.request (held.map Descriptor.id) activation = (d, pool)) ∨
    ((∀ d ∈ held, d.activation ≠ activation) ∧
      pool.request (held.map Descriptor.id) activation
        = (⟨pool.fresh, activation⟩,
          ⟨pool.liveEntries (held.map Descriptor.id) ++ [⟨pool.fresh, activation⟩],
            pool.fresh + 1⟩)) := by
  rw [Pool.request]
  split
  next d hfound =>
    refine Or.inl ⟨d, h.mem_liveEntries_iff.mp (List.mem_of_find?_eq_some hfound), ?_, rfl⟩
    simpa using List.find?_some hfound
  next hnone =>
    refine Or.inr ⟨fun d hd hsame => ?_, rfl⟩
    have hother := List.find?_eq_none.mp hnone d (h.mem_liveEntries_iff.mpr hd)
    exact hother (by simp [hsame])

/-- Forgetting what nobody holds. -/
theorem prune (h : pool.Serves held) :
    Pool.Serves ⟨pool.liveEntries (held.map Descriptor.id), pool.fresh⟩ held :=
  ⟨fun _ hd => h.mem_liveEntries_iff.mpr hd,
    fun _ hentry => h.below _ (mem_liveEntries.mp hentry).1,
    h.ids.sublist (List.filter_sublist.map _), h.activations.sublist (List.filter_sublist.map _)⟩

/-- Making a descriptor of an activation that no entry has. -/
theorem insert (h : pool.Serves held)
    (hother : ∀ entry ∈ pool.entries, entry.activation ≠ activation) :
    Pool.Serves ⟨pool.entries ++ [⟨pool.fresh, activation⟩], pool.fresh + 1⟩
      (held ++ [⟨pool.fresh, activation⟩]) := by
  refine ⟨fun d hd => ?_, fun entry hentry => ?_, ?_, ?_⟩
  · rcases List.mem_append.mp hd with hold | hnew
    · exact List.mem_append_left _ (h.known d hold)
    · exact List.mem_append_right _ hnew
  · rcases List.mem_append.mp hentry with hold | hnew
    · exact Nat.lt_succ_of_lt (h.below entry hold)
    · obtain rfl := List.mem_singleton.mp hnew
      exact Nat.lt_succ_self _
  · rw [List.map_append, List.map_singleton, ← List.concat_eq_append, List.nodup_concat]
    refine ⟨fun hmem => ?_, h.ids⟩
    obtain ⟨entry, hentry, hid⟩ := List.mem_map.mp hmem
    exact absurd hid (Nat.ne_of_lt (h.below entry hentry))
  · rw [List.map_append, List.map_singleton, ← List.concat_eq_append, List.nodup_concat]
    refine ⟨fun hmem => ?_, h.activations⟩
    obtain ⟨entry, hentry, hsame⟩ := List.mem_map.mp hmem
    exact hother entry hentry hsame

/-- **A request keeps the pool serving**, with what it hands out among what is held. -/
theorem request (h : pool.Serves held) (activation : Activation) :
    (pool.request (held.map Descriptor.id) activation).2.Serves
      (held ++ [(pool.request (held.map Descriptor.id) activation).1]) := by
  rcases h.request_cases activation with ⟨d, hd, -, hrequest⟩ | ⟨hnobody, hrequest⟩
  · rw [hrequest]
    exact h.subset fun descriptor hmem => by
      rcases List.mem_append.mp hmem with hold | hnew
      · exact hold
      · exact List.mem_singleton.mp hnew ▸ hd
  · rw [hrequest]
    exact h.prune.insert fun entry hentry => hnobody entry (h.mem_liveEntries_iff.mp hentry)

/-- A pool that has just made a descriptor has the live ones as its entries and no others. -/
theorem length_entries_of_new (h : pool.Serves held)
    (hnew : (pool.request (held.map Descriptor.id) activation).1 ∉ pool.entries) :
    (pool.request (held.map Descriptor.id) activation).2.entries.length
      = (pool.request (held.map Descriptor.id) activation).2.live
        ((held ++ [(pool.request (held.map Descriptor.id) activation).1]).map Descriptor.id) := by
  rcases h.request_cases activation with ⟨d, hd, -, hrequest⟩ | ⟨-, hrequest⟩
  · rw [hrequest] at hnew
    exact absurd (h.known d hd) hnew
  · -- what is left of the old entries was live, and the new one is held now
    have hall : ∀ entry ∈ pool.liveEntries (held.map Descriptor.id) ++ [⟨pool.fresh, activation⟩],
        entry ∈ held ++ [⟨pool.fresh, activation⟩] := by
      intro entry hentry
      rcases List.mem_append.mp hentry with hold | hlast
      · exact List.mem_append_left _ (h.mem_liveEntries_iff.mp hold)
      · exact List.mem_append_right _ hlast
    rw [hrequest]
    refine congrArg List.length (List.filter_eq_self.mpr fun entry hentry => ?_).symm
    exact List.contains_iff_mem.mpr (List.mem_map_of_mem (hall entry hentry))

end Serves

end Pool

/-! ## 2. Handles

A handle remembers the activation that it was asked for, which the descriptor in it must still be.
The events are all that a caller can do; that a clone is a second holder of the same number is all
that matters of it. -/

/-- A handle as its holder knows it: the activation that was asked for, and the descriptor that was
got. -/
structure Handle where
  asked : Activation
  descriptor : Descriptor
  deriving DecidableEq, Repr

/-- A pool, and the handles that are out. -/
structure Lending where
  pool : Pool
  handles : List Handle
  deriving Repr

/-- What may happen next. -/
inductive LendingEvent where
  | request (activation : Activation)
  /-- The holder of the handle at a position makes another of it. -/
  | clone (position : Nat)
  /-- The holder of the handle at a position gives it up. -/
  | drop (position : Nat)
  deriving DecidableEq, Repr

namespace Lending

/-- Nothing asked for yet. -/
def start : Lending :=
  ⟨.empty, []⟩

/-- The descriptors that are out, each as often as there are handles of it. -/
def descriptors (lending : Lending) : List Descriptor :=
  lending.handles.map Handle.descriptor

/-- Their numbers. -/
def held (lending : Lending) : List Nat :=
  lending.descriptors.map Descriptor.id

/-- Number of live descriptors. -/
def live (lending : Lending) : Nat :=
  lending.pool.live lending.held

/-- Whether a request would make a descriptor that the pool does not know. -/
def Makes (lending : Lending) (activation : Activation) : Prop :=
  (lending.pool.request lending.held activation).1 ∉ lending.pool.entries

/-- One event.  The pool takes part in requests only. -/
def step (lending : Lending) : LendingEvent → Lending
  | .request activation =>
    let (descriptor, pool) := lending.pool.request lending.held activation
    ⟨pool, lending.handles ++ [⟨activation, descriptor⟩]⟩
  | .clone position =>
    { lending with handles := lending.handles ++ lending.handles[position]?.toList }
  | .drop position => { lending with handles := lending.handles.eraseIdx position }

/-- Events, one after the other. -/
def run (events : List LendingEvent) : Lending :=
  events.foldl step start

/-- What is out is served, and everybody got what was asked for. -/
structure Consistent (lending : Lending) : Prop where
  serves : lending.pool.Serves lending.descriptors
  asked : ∀ handle ∈ lending.handles, handle.descriptor.activation = handle.asked

/-- Nothing is held at the start, so nothing can be wrong with it. -/
theorem consistent_start : start.Consistent :=
  ⟨Pool.serves_empty, by simp [start]⟩

namespace Consistent

variable {lending : Lending}

/-- Clones and drops leave handles that were there before. -/
theorem of_subset (h : lending.Consistent) {handles : List Handle}
    (hsubset : ∀ handle ∈ handles, handle ∈ lending.handles) :
    Consistent { lending with handles := handles } := by
  refine ⟨h.serves.subset fun d hd => ?_,
    fun handle hhandle => h.asked handle (hsubset handle hhandle)⟩
  obtain ⟨handle, hhandle, rfl⟩ := List.mem_map.mp hd
  exact List.mem_map_of_mem (hsubset handle hhandle)

/-- A request adds the handle it gives to those that are held. -/
theorem descriptors_request (lending : Lending) (activation : Activation) :
    (lending.step (.request activation)).descriptors
      = lending.descriptors ++ [(lending.pool.request lending.held activation).1] := by
  simp [descriptors, Lending.step]

/-- **Every event keeps it.** -/
theorem step (h : lending.Consistent) (event : LendingEvent) : (lending.step event).Consistent := by
  cases event with
  | request activation =>
    refine ⟨?_, fun handle hhandle => ?_⟩
    · rw [descriptors_request]
      exact h.serves.request activation
    · rcases List.mem_append.mp hhandle with hold | hnew
      · exact h.asked handle hold
      · obtain rfl := List.mem_singleton.mp hnew
        exact Pool.activation_request lending.pool lending.held activation
  | clone position =>
    refine h.of_subset fun handle hhandle => ?_
    rcases List.mem_append.mp hhandle with hold | hnew
    · exact hold
    · exact List.mem_of_getElem? (Option.mem_toList.mp hnew)
  | drop position => exact h.of_subset fun handle hhandle => List.mem_of_mem_eraseIdx hhandle

/-- What a handle shows is held. -/
theorem mem_descriptors {handle : Handle} (hhandle : handle ∈ lending.handles) :
    handle.descriptor ∈ lending.descriptors :=
  List.mem_map_of_mem hhandle

/-- The activations asked for are those of the descriptors got. -/
theorem map_asked (h : lending.Consistent) :
    lending.handles.map Handle.asked = lending.descriptors.map Descriptor.activation := by
  rw [descriptors, List.map_map]
  exact List.map_congr_left fun handle hhandle => (h.asked handle hhandle).symm

/-- A descriptor is made exactly if nobody holds one of the activation. -/
theorem makes_iff (h : lending.Consistent) (activation : Activation) :
    lending.Makes activation ↔ ∀ handle ∈ lending.handles, handle.asked ≠ activation := by
  rw [Makes, held]
  rcases h.serves.request_cases activation with ⟨d, hd, hsame, hrequest⟩ | ⟨hnobody, hrequest⟩
  · obtain ⟨handle, hhandle, rfl⟩ := List.mem_map.mp hd
    rw [hrequest, ← hsame, h.asked handle hhandle]
    exact iff_of_false (fun hnew => hnew (h.serves.known _ hd)) fun hnone =>
      hnone handle hhandle rfl
  · rw [hrequest]
    refine iff_of_true (fun hold => Nat.lt_irrefl _ (h.serves.below _ hold))
      fun handle hhandle => ?_
    rw [← h.asked handle hhandle]
    exact hnobody _ (mem_descriptors hhandle)

/-- **A request that makes a descriptor sweeps first**: what the pool has afterwards is what is
held, and no more. -/
theorem length_entries_of_makes (h : lending.Consistent) {activation : Activation}
    (hmakes : lending.Makes activation) :
    (lending.step (.request activation)).pool.entries.length
      = (lending.step (.request activation)).live := by
  rw [live, held, descriptors_request]
  exact h.serves.length_entries_of_new hmakes

end Consistent

/-- **Whatever happens, the pool is consistent with what is out.** -/
theorem consistent_run (events : List LendingEvent) : (run events).Consistent := by
  induction events using List.reverseRecOn with
  | nil => exact consistent_start
  | append_singleton events event ih =>
    rw [run, List.foldl_append]
    exact ih.step event

/-- **Descriptors are shared by activation, whatever happens.**  After any requests, clones and
drops:

* two handles are the same descriptor exactly if the same activation was asked for;
* as many descriptors are live as there are activations with a handle;
* a request makes a descriptor exactly if no handle of that activation is out, and the pool then has
  as many entries as there are live descriptors. -/
theorem run_shared (events : List LendingEvent) :
    (∀ a ∈ (run events).handles, ∀ b ∈ (run events).handles,
      a.descriptor.id = b.descriptor.id ↔ a.asked = b.asked) ∧
    (run events).live = ((run events).handles.map Handle.asked).toFinset.card ∧
    ∀ activation,
      ((run events).Makes activation ↔ ∀ a ∈ (run events).handles, a.asked ≠ activation) ∧
      ((run events).Makes activation →
        ((run events).step (.request activation)).pool.entries.length
          = ((run events).step (.request activation)).live) := by
  have h := consistent_run events
  refine ⟨fun a ha b hb => ?_, ?_,
    fun activation => ⟨h.makes_iff activation, h.length_entries_of_makes⟩⟩
  · rw [← h.asked a ha, ← h.asked b hb]
    have ha' := Consistent.mem_descriptors ha
    have hb' := Consistent.mem_descriptors hb
    constructor
    · intro hid
      rw [h.serves.eq_of_id_eq ha' hb' hid]
    · intro hsame
      rw [h.serves.eq_of_activation_eq ha' hb' hsame]
  · rw [live, held, h.serves.live_eq, h.map_asked]

end Lending

end Strided
