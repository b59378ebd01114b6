import Mathlib.Data.List.Nodup
import Mathlib.Logic.Function.Basic
import PagedQueue.Index.Recovery
import PagedQueue.Index.Transition
import Std.Data.TreeMap.Lemmas

/-!
# What the memory of an index holds

The two indexes and the table of entries hold a message for each position, or none (`Holds`): the
order of creation leads to the entry of a position, and the UUIDs lead to the same entries. Messages
enter, change their status and leave (`Holds.enter`, `Holds.setStatus`, `Holds.leave`), and each
step says what is held afterwards.

What the index answers is told by what it holds: which message has a UUID
(`Holds.find?_eq_some_iff`), how many there are (`Holds.size_eq`), and in which order they were
created (`Holds.values_eq`).
-/

namespace PagedQueue

/-! ## Maps in ascending order -/

section

variable {β : Type} {n : Nat}

theorem toList_eq_filterMap_range (t : Std.TreeMap Nat β) (h : ∀ k b, t[k]? = some b → k < n) :
    t.toList = (List.range n).filterMap fun k => t[k]?.map (k, ·) := by
  have hmem (entry : Nat × β) : entry ∈ t.toList
      ↔ entry ∈ (List.range n).filterMap fun k => t[k]?.map (k, ·) := by
    obtain ⟨k, b⟩ := entry
    rw [Std.TreeMap.mem_toList_iff_getElem?_eq_some, List.mem_filterMap]
    constructor
    · intro hb
      exact ⟨k, List.mem_range.mpr (h k b hb), by rw [hb]; rfl⟩
    · intro hand
      obtain ⟨i, -, hi⟩ := hand
      obtain ⟨b', hb', heq⟩ := Option.map_eq_some_iff.mp hi
      cases heq
      exact hb'
  -- both lists are sorted and have the same members
  have hsorted : t.toList.Pairwise fun a b => a.1 < b.1 :=
    t.ordered_keys_toList.imp fun hlt => Nat.compare_eq_lt.mp hlt
  have hsorted' : ((List.range n).filterMap fun k => t[k]?.map (k, ·)).Pairwise
      fun a b => a.1 < b.1 := by
    refine List.Pairwise.filterMap _ (fun i j hij a ha b hb => ?_) List.pairwise_lt_range
    obtain ⟨_, -, rfl⟩ := Option.map_eq_some_iff.mp ha
    obtain ⟨_, -, rfl⟩ := Option.map_eq_some_iff.mp hb
    exact hij
  have hnodup {l : List (Nat × β)} (hl : l.Pairwise fun a b => a.1 < b.1) : l.Nodup :=
    List.Pairwise.imp (fun hlt heq => absurd (congrArg Prod.fst heq) (Nat.ne_of_lt hlt)) hl
  refine List.Perm.eq_of_pairwise (fun a b _ _ hab hba => absurd hab (Nat.lt_asymm hba)) hsorted
    hsorted' ?_
  exact (List.perm_ext_iff_of_nodup (hnodup hsorted) (hnodup hsorted')).mpr hmem

theorem values_eq_map_toList {α : Type} [Ord α] (t : Std.TreeMap α β) :
    t.values = t.toList.map Prod.snd := by
  have hfold : t.values = t.foldr (fun _ value rest => value :: rest) [] := rfl
  rw [hfold, Std.TreeMap.foldr_eq_foldr_toList]
  induction t.toList with
  | nil => rfl
  | cons first rest ih => rw [List.foldr_cons, ih, List.map_cons]

end

/-! ## Messages held -/

/-- The entries held by position: each has its position, is in the queue, and has its UUID to
itself. -/
structure Queued (held : Nat → Option Entry) : Prop where
  position : ∀ {p e}, held p = some e → e.position = p
  isLive : ∀ {p e}, held p = some e → e.status.isLive = true
  unique : ∀ {p q e e'}, held p = some e → held q = some e' → e.uuid = e'.uuid → p = q

namespace Queued

variable {held : Nat → Option Entry} {p : Nat} {e : Entry}

/-- An entry is held at its position, and no other one has its UUID. -/
theorem update_some (h : Queued held) (hposition : e.position = p) (hlive : e.status.isLive = true)
    (hnew : ∀ q e', q ≠ p → held q = some e' → e'.uuid ≠ e.uuid) :
    Queued (Function.update held p (some e)) := by
  have hcases {q : Nat} {e' : Entry} (he' : Function.update held p (some e) q = some e') :
      q = p ∧ e' = e ∨ q ≠ p ∧ held q = some e' := by
    by_cases hq : q = p
    · subst hq
      rw [Function.update_self] at he'
      exact .inl ⟨rfl, (Option.some.inj he').symm⟩
    · rw [Function.update_of_ne hq] at he'
      exact .inr ⟨hq, he'⟩
  refine ⟨?_, ?_, ?_⟩
  · intro q e' he'
    obtain ⟨rfl, rfl⟩ | ⟨-, he'⟩ := hcases he'
    · exact hposition
    · exact h.position he'
  · intro q e' he'
    obtain ⟨-, rfl⟩ | ⟨-, he'⟩ := hcases he'
    · exact hlive
    · exact h.isLive he'
  · intro q r e₁ e₂ h₁ h₂ huuid
    obtain ⟨rfl, rfl⟩ | ⟨hq, hheld₁⟩ := hcases h₁
    · obtain ⟨rfl, -⟩ | ⟨hr, hheld₂⟩ := hcases h₂
      · rfl
      · exact absurd huuid.symm (hnew r e₂ hr hheld₂)
    · obtain ⟨rfl, rfl⟩ | ⟨-, hheld₂⟩ := hcases h₂
      · exact absurd huuid (hnew q e₁ hq hheld₁)
      · exact h.unique hheld₁ hheld₂ huuid

theorem update_none (h : Queued held) (p : Nat) : Queued (Function.update held p none) := by
  have hkept {q : Nat} {e' : Entry} (he' : Function.update held p none q = some e') :
      held q = some e' := by
    by_cases hq : q = p
    · subst hq
      rw [Function.update_self] at he'
      cases he'
    · rwa [Function.update_of_ne hq] at he'
  exact ⟨fun he' => h.position (hkept he'), fun he' => h.isLive (hkept he'),
    fun h₁ h₂ => h.unique (hkept h₁) (hkept h₂)⟩

end Queued

namespace MessageIndex

/-- Both indexes lead to the entries held. -/
structure Holds (m : MessageIndex) (held : Nat → Option Entry) : Prop where
  queued : Queued held
  ordered_eq : ∀ p : Nat, m.ordered[p]?.map m.entry = held p
  lt_size : ∀ {p : Nat} {id : EntryId}, m.ordered[p]? = some id → id < m.entries.size
  live_iff : ∀ (u : Uuid) (id : EntryId),
    m.live[u]? = some id ↔ ∃ p : Nat, m.ordered[p]? = some id ∧ (m.entry id).uuid = u

variable {m m' : MessageIndex} {held : Nat → Option Entry} {p q : Nat} {id : EntryId} {e : Entry}
  {u : Uuid}

/-- An entry that is added leaves the others. -/
theorem entry_of_push (hentries : m'.entries = m.entries.push e) (hid : id < m.entries.size) :
    m'.entry id = m.entry id := by
  have hne : id ≠ m.entries.size := Nat.ne_of_lt hid
  simp [entry, hentries, Array.getElem?_push, hne]

theorem entry_of_push_self (hentries : m'.entries = m.entries.push e) :
    m'.entry m.entries.size = e := by
  simp [entry, hentries]

/-- An entry that is changed leaves the others. -/
theorem entry_of_modify {f : Entry → Entry} (hentries : m'.entries = m.entries.modify id f)
    (other : EntryId) :
    m'.entry other
      = if id = other ∧ other < m.entries.size then f (m.entry other) else m.entry other := by
  simp only [entry, hentries, Array.getD_eq_getD_getElem?, Array.getElem?_modify]
  by_cases hid : id = other
  · by_cases hlt : other < m.entries.size
    · simp [hid, hlt]
    · simp [hid, hlt]
  · simp [hid]

/-- What has a status is an entry. -/
theorem lt_size_of_status {id : EntryId} (h : (m.entry id).status ≠ .vacant) :
    id < m.entries.size := by
  by_contra hge
  have hdefault : m.entry id = default := by
    simp [entry, Array.getD_eq_getD_getElem?, Nat.le_of_not_lt hge]
  exact h (by rw [hdefault]; rfl)

/-- Only the entry itself gets the new status. -/
theorem entry_setStatus (m : MessageIndex) {id : EntryId} {status : Status}
    (h : (m.entry id).status ≠ .vacant) (other : EntryId) :
    entry { m with entries := m.entries.modify id ({ · with status }) } other
      = if id = other then { m.entry other with status } else m.entry other := by
  rw [@entry_of_modify m _ id ({ · with status }) rfl]
  by_cases hid : id = other
  · subst hid
    rw [if_pos ⟨rfl, lt_size_of_status h⟩, if_pos rfl]
  · rw [if_neg fun hand => hid hand.1, if_neg hid]

/-- Nothing but the entries and the two indexes counts. -/
theorem Holds.congr (h : Holds m held) (hentries : m'.entries = m.entries)
    (hlive : m'.live = m.live) (hordered : m'.ordered = m.ordered) : Holds m' held := by
  have hentry : m'.entry = m.entry := funext fun id => by rw [entry, hentries, entry]
  refine ⟨h.queued, fun p => ?_, fun hid => ?_, fun u id => ?_⟩
  · rw [hordered, hentry]
    exact h.ordered_eq p
  · rw [hentries]
    exact h.lt_size (hordered ▸ hid)
  · rw [hlive, hordered, hentry]
    exact h.live_iff u id

/-- Empty maps hold nothing. -/
theorem holds_empty (hlive : m.live = {}) (hordered : m.ordered = {}) : Holds m fun _ => none := by
  refine ⟨⟨nofun, nofun, nofun⟩, fun p => ?_, fun {p id} hid => ?_, fun u id => ?_⟩
  · rw [hordered, Std.TreeMap.getElem?_emptyc, Option.map_none]
  · rw [hordered, Std.TreeMap.getElem?_emptyc] at hid
    cases hid
  · simp [hlive, hordered]

/-- The oldest message that waits stands at some position. -/
theorem exists_position_of_oldestNew? (h : m.oldestNew? = some id) : ∃ p :
    Nat, m.ordered[p]? = some id := by
  have hmem := List.mem_of_find?_eq_some h
  rw [values_eq_map_toList] at hmem
  obtain ⟨⟨p, _⟩, hentry, rfl⟩ := List.mem_map.mp hmem
  exact ⟨p, Std.TreeMap.mem_toList_iff_getElem?_eq_some.mp hentry⟩

namespace Holds

/-- What stands in order is held. -/
theorem held_of_ordered (h : Holds m held) (hid : m.ordered[p]? = some id) :
    held p = some (m.entry id) := by
  rw [← h.ordered_eq, hid, Option.map_some]

/-- What is held stands in order. -/
theorem exists_id (h : Holds m held) (he : held p = some e) :
    ∃ id, m.ordered[p]? = some id ∧ m.entry id = e := by
  rw [← h.ordered_eq] at he
  exact Option.map_eq_some_iff.mp he

/-- An entry stands at one position only. -/
theorem position_unique (h : Holds m held) (hp : m.ordered[p]? = some id)
    (hq : m.ordered[q]? = some id) : p = q :=
  (h.queued.position (h.held_of_ordered hp)).symm.trans (h.queued.position (h.held_of_ordered hq))

/-- The UUIDs lead to the entries held. -/
theorem exists_live_iff (h : Holds m held) :
    (∃ id, m.live[u]? = some id ∧ m.entry id = e) ↔ ∃ p, held p = some e ∧ e.uuid = u := by
  constructor
  · intro hand
    obtain ⟨id, hid, rfl⟩ := hand
    obtain ⟨p, hp, huuid⟩ := (h.live_iff u id).mp hid
    exact ⟨p, h.held_of_ordered hp, huuid⟩
  · intro hand
    obtain ⟨p, hp, huuid⟩ := hand
    obtain ⟨id, hid, rfl⟩ := h.exists_id hp
    exact ⟨id, (h.live_iff u id).mpr ⟨p, hid, huuid⟩, rfl⟩

/-- A UUID is live exactly if an entry that is held bears it. -/
theorem contains_iff (h : Holds m held) :
    m.live.contains u = true ↔ ∃ p e, held p = some e ∧ e.uuid = u := by
  rw [Std.TreeMap.contains_eq_isSome_getElem?, Option.isSome_iff_exists]
  constructor
  · intro hand
    obtain ⟨id, hid⟩ := hand
    obtain ⟨p, hp, huuid⟩ := (h.live_iff u id).mp hid
    exact ⟨p, _, h.held_of_ordered hp, huuid⟩
  · intro hand
    obtain ⟨p, e, hp, huuid⟩ := hand
    obtain ⟨id, hid, -⟩ := h.exists_live_iff.mpr ⟨p, hp, huuid⟩
    exact ⟨id, hid⟩

/-- The message of a UUID is the one held. -/
theorem find?_eq_some_iff (h : Holds m held) :
    m.find? u = some id ↔ ∃ p : Nat, m.ordered[p]? = some id ∧ (m.entry id).uuid = u := by
  rw [find?, Option.filter_eq_some_iff, h.live_iff]
  constructor
  · exact And.left
  · intro hand
    obtain ⟨p, hp, huuid⟩ := hand
    exact ⟨⟨p, hp, huuid⟩, h.queued.isLive (h.held_of_ordered hp)⟩

/-- A UUID that no held entry bears is not found. -/
theorem find?_eq_none (h : Holds m held) (hnone : ∀ p e, held p = some e → e.uuid ≠ u) :
    m.find? u = none := by
  refine Option.eq_none_iff_forall_ne_some.mpr fun id hid => ?_
  obtain ⟨p, hp, huuid⟩ := h.find?_eq_some_iff.mp hid
  exact hnone p _ (h.held_of_ordered hp) huuid

/-- The entries in the order of creation. -/
theorem values_eq (h : Holds m held) {n : Nat} (hbound : ∀ {p e}, held p = some e → p < n) :
    m.ordered.values = (List.range n).filterMap fun p => m.ordered[p]? := by
  have hlt (p : Nat) (id : EntryId) (hid : m.ordered[p]? = some id) : p < n :=
    hbound (h.held_of_ordered hid)
  rw [values_eq_map_toList, toList_eq_filterMap_range m.ordered hlt, List.map_filterMap]
  simp only [Option.map_map, Function.comp_def, Option.map_id']

/-- As many messages as positions are held. -/
theorem size_eq (h : Holds m held) {n : Nat} (hbound : ∀ {p e}, held p = some e → p < n) :
    m.size = (List.range n).countP fun p => (held p).isSome := by
  have hentry {entry : Uuid × EntryId} (hmem : entry ∈ m.live.toList) :
      ∃ p : Nat, m.ordered[p]? = some entry.2 ∧ (m.entry entry.2).uuid = entry.1
        ∧ (m.entry entry.2).position = p := by
    rw [Std.TreeMap.mem_toList_iff_getElem?_eq_some, h.live_iff] at hmem
    obtain ⟨p, hp, huuid⟩ := hmem
    exact ⟨p, hp, huuid, h.queued.position (h.held_of_ordered hp)⟩
  have hnodup : m.live.toList.Nodup := by
    refine m.live.distinct_keys_toList.imp fun hne heq => hne ?_
    rw [heq]
    exact Std.ReflCmp.compare_self
  -- the positions of the messages known by UUID are the positions held
  have hpositions : (m.live.toList.map fun entry => (m.entry entry.2).position).Perm
      ((List.range n).filter fun p => (held p).isSome) := by
    refine (List.perm_ext_iff_of_nodup ?_ (List.nodup_range.filter _)).mpr fun p => ?_
    · refine List.Nodup.map_on (fun a ha b hb heq => ?_) hnodup
      obtain ⟨p, hp, hua, hpa⟩ := hentry ha
      obtain ⟨q, hq, hub, hqb⟩ := hentry hb
      have hpq : p = q := hpa.symm.trans (heq.trans hqb)
      subst hpq
      have hid : a.2 = b.2 := Option.some.inj (hp.symm.trans hq)
      exact Prod.ext (by rw [← hua, ← hub, hid]) hid
    · rw [List.mem_map, List.mem_filter, List.mem_range, Option.isSome_iff_exists]
      constructor
      · intro hand
        obtain ⟨entry, hmem, rfl⟩ := hand
        obtain ⟨p, hp, -, hposition⟩ := hentry hmem
        have hheld := h.held_of_ordered hp
        rw [hposition]
        exact ⟨hbound hheld, _, hheld⟩
      · intro hand
        obtain ⟨-, e, he⟩ := hand
        obtain ⟨id, hid, rfl⟩ := h.exists_id he
        refine ⟨((m.entry id).uuid, id), ?_, h.queued.position he⟩
        rw [Std.TreeMap.mem_toList_iff_getElem?_eq_some, h.live_iff]
        exact ⟨p, hid, rfl⟩
  rw [MessageIndex.size, ← Std.TreeMap.length_toList, List.countP_eq_length_filter,
    ← hpositions.length_eq, List.length_map]

/-! ## Messages that enter, change and leave -/

/-- An entry to which nothing leads is none of what is held. -/
theorem make (h : Holds m held) (hentries : m'.entries = m.entries.push e)
    (hlive : m'.live = m.live) (hordered : m'.ordered = m.ordered) : Holds m' held := by
  have hother {p : Nat} {id : EntryId} (hid : m.ordered[p]? = some id) : m'.entry id = m.entry id :=
    entry_of_push hentries (h.lt_size hid)
  refine ⟨h.queued, fun p => ?_, fun hid => ?_, fun u id => ?_⟩
  · rw [hordered, ← h.ordered_eq]
    exact Option.map_congr fun id hid => hother hid
  · rw [hentries, Array.size_push]
    exact Nat.lt_succ_of_lt (h.lt_size (hordered ▸ hid))
  · rw [hlive, hordered, h.live_iff]
    exact exists_congr fun p => and_congr_right fun hid => by rw [hother hid]

/-- A message enters under a position and a UUID that are free. -/
theorem enter (h : Holds m held) (hfree : held e.position = none) (hlive : e.status.isLive = true)
    (hnew : ∀ q e', held q = some e' → e'.uuid ≠ e.uuid)
    (hentries : m'.entries = m.entries.push e)
    (hliveMap : m'.live = m.live.insert e.uuid m.entries.size)
    (hordered : m'.ordered = m.ordered.insert e.position m.entries.size) :
    Holds m' (Function.update held e.position (some e)) := by
  have hfirst := entry_of_push_self hentries
  have hother {p : Nat} {id : EntryId} (hid : m.ordered[p]? = some id) :
      m'.entry id = m.entry id := entry_of_push hentries (h.lt_size hid)
  -- the position is free, so the new entry pushes none out
  have hne {p : Nat} {id : EntryId} (hid : m.ordered[p]? = some id) : e.position ≠ p := by
    intro heq
    subst heq
    rw [h.held_of_ordered hid] at hfree
    cases hfree
  have hget (p : Nat) : m'.ordered[p]?
      = if e.position = p then some m.entries.size else m.ordered[p]? := by
    simp [hordered, Std.TreeMap.getElem?_insert]
  refine ⟨h.queued.update_some rfl hlive fun q e' _ he' => hnew q e' he', ?_, ?_, ?_⟩
  · intro p
    rw [hget]
    split
    next hp => subst hp; rw [Option.map_some, hfirst, Function.update_self]
    next hp =>
      rw [Function.update_of_ne (Ne.symm hp), ← h.ordered_eq]
      exact Option.map_congr fun id hid => hother hid
  · intro p id hid
    rw [hentries, Array.size_push]
    rw [hget] at hid
    split at hid
    · rw [← Option.some.inj hid]
      exact Nat.lt_succ_self _
    · exact Nat.lt_succ_of_lt (h.lt_size hid)
  · intro u id
    rw [hliveMap, Std.TreeMap.getElem?_insert]
    simp only [Std.LawfulEqCmp.compare_eq_iff_eq, hget]
    split
    next hu =>
      subst hu
      constructor
      · intro hid
        cases hid
        exact ⟨e.position, if_pos rfl, by rw [hfirst]⟩
      · intro hand
        obtain ⟨p, hid, huuid⟩ := hand
        split at hid
        · exact hid
        · -- another entry with the UUID would have been in the way
          rw [hother hid] at huuid
          exact absurd huuid (hnew p _ (h.held_of_ordered hid))
    next hu =>
      rw [h.live_iff]
      constructor
      · intro hand
        obtain ⟨p, hid, huuid⟩ := hand
        exact ⟨p, by rw [if_neg (hne hid), hid], by rw [hother hid, huuid]⟩
      · intro hand
        obtain ⟨p, hid, huuid⟩ := hand
        split at hid
        · cases hid
          rw [hfirst] at huuid
          exact absurd huuid hu
        · exact ⟨p, hid, by rw [← hother hid, huuid]⟩

/-- A message in the queue gets another status, with which it stays there. -/
theorem setStatus (h : Holds m held) (hid : m.ordered[p]? = some id) {status : Status}
    (hlive : status.isLive = true) (hentries : m'.entries = m.entries.modify id ({ · with status }))
    (hliveMap : m'.live = m.live) (hordered : m'.ordered = m.ordered) :
    Holds m' (Function.update held p (some { m.entry id with status })) := by
  have hset : m'.entry id = { m.entry id with status } := by
    rw [entry_of_modify hentries, if_pos ⟨rfl, h.lt_size hid⟩]
  have hother {other : EntryId} (hne : other ≠ id) : m'.entry other = m.entry other := by
    rw [entry_of_modify hentries, if_neg fun hand => hne hand.1.symm]
  have huuid (other : EntryId) : (m'.entry other).uuid = (m.entry other).uuid := by
    by_cases hne : other = id
    · rw [hne, hset]
    · rw [hother hne]
  have hheld := h.held_of_ordered hid
  have hposition : (m.entry id).position = p := h.queued.position hheld
  have hqueued : Queued (Function.update held p (some { m.entry id with status })) :=
    h.queued.update_some hposition hlive fun q e' hq he' heq => hq (h.queued.unique he' hheld heq)
  refine ⟨hqueued, ?_, ?_, ?_⟩
  · intro q
    rw [hordered]
    by_cases hq : q = p
    · subst hq
      rw [hid, Option.map_some, hset, Function.update_self]
    · rw [Function.update_of_ne hq, ← h.ordered_eq]
      refine Option.map_congr fun other hothers => hother ?_
      intro heq
      subst heq
      exact hq (h.position_unique hothers hid)
  · intro q other hothers
    rw [hentries, Array.size_modify]
    exact h.lt_size (hordered ▸ hothers)
  · intro u other
    rw [hliveMap, hordered, huuid]
    exact h.live_iff u other

/-- A message leaves both indexes, whatever becomes of its entry. -/
theorem leave (h : Holds m held) (hid : m.ordered[p]? = some id)
    (hentries : ∃ f, m'.entries = m.entries.modify id f)
    (hliveMap : m'.live = m.live.erase (m.entry id).uuid)
    (hordered : m'.ordered = m.ordered.erase p) :
    Holds m' (Function.update held p none) := by
  obtain ⟨f, hentries⟩ := hentries
  have hheld := h.held_of_ordered hid
  have hget (q : Nat) : m'.ordered[q]? = if p = q then none else m.ordered[q]? := by
    simp [hordered, Std.TreeMap.getElem?_erase]
  have hother {q : Nat} {other : EntryId} (hne : p ≠ q) (hothers : m.ordered[q]? = some other) :
      m'.entry other = m.entry other := by
    rw [entry_of_modify hentries, if_neg]
    intro hand
    obtain ⟨rfl, -⟩ := hand
    exact hne (h.position_unique hid hothers)
  refine ⟨h.queued.update_none p, ?_, ?_, ?_⟩
  · intro q
    rw [hget]
    split
    next hq => subst hq; rw [Option.map_none, Function.update_self]
    next hq =>
      rw [Function.update_of_ne (Ne.symm hq), ← h.ordered_eq]
      exact Option.map_congr fun other hothers => hother hq hothers
  · intro q other hothers
    rw [hget] at hothers
    split at hothers
    · cases hothers
    · rw [hentries, Array.size_modify]
      exact h.lt_size hothers
  · intro u other
    rw [hliveMap, Std.TreeMap.getElem?_erase]
    simp only [Std.LawfulEqCmp.compare_eq_iff_eq, hget]
    split
    next hu =>
      subst hu
      constructor
      · intro hnone
        cases hnone
      · intro hand
        obtain ⟨q, hothers, huuid⟩ := hand
        split at hothers
        · cases hothers
        next hne =>
          -- the UUID belonged to the message that left
          rw [hother hne hothers] at huuid
          exact absurd (h.queued.unique hheld (h.held_of_ordered hothers) huuid.symm) hne
    next hu =>
      rw [h.live_iff]
      constructor
      · intro hand
        obtain ⟨q, hothers, huuid⟩ := hand
        have hne : p ≠ q := by
          intro heq
          subst heq
          rw [hid] at hothers
          cases hothers
          exact hu huuid
        exact ⟨q, by rw [if_neg hne, hothers], by rw [hother hne hothers, huuid]⟩
      · intro hand
        obtain ⟨q, hothers, huuid⟩ := hand
        split at hothers
        · cases hothers
        next hne => exact ⟨q, hothers, by rw [← hother hne hothers, huuid]⟩

end Holds

end MessageIndex

end PagedQueue
