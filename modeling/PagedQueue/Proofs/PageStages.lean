import Mathlib.Data.Prod.Lex
import PagedQueue.Proofs.PageLeases

/-!
# What the steps of a call on a page store make up

A client that is alone comes to the answer and the store that the procedure of its call comes to
(`PageStore.call_run_alone`). What is left to do at a stage (`PageStage.rest`) is the same after its
step, as long as the pages in the cache are filed under their own numbers (`PageStage.act_goes`): a
sweep that looks at one page after the other then lets the same pages go as one that looks at all of
them at once.
-/

namespace PagedQueue

open Procedure

namespace Page

/-- To close a page twice is to close it once. -/
@[simp]
theorem close_close (p : Page) : p.close.close = p.close := by
  have hflush : p.close.flush = p.close := if_neg (by simp [close])
  rw [close, hflush]
  rfl

/-- A closed page is collected as an open one is. -/
@[simp]
theorem collect_close (p : Page) : p.close.collect = p.collect.close := by
  unfold close flush collect
  dsimp only
  split <;> rfl

@[simp]
theorem collect_collect (p : Page) : p.collect.collect = p.collect := rfl

/-- A page that was collected is only closed. -/
theorem collect_of_references {p : Page} (h : p.references = -1) : p.collect = p := by
  simp only [collect, ← h]

end Page

namespace PageStore

variable {s : PageStore} {expired gone : List (Nat × PageId)}

/-- The store with its pages changed, each according to its place in the table. -/
def mapPages (s : PageStore) (f : PageId → Page → Page) : PageStore :=
  { s with pages := s.pages.mapIdx f }

/-- Only what becomes of the pages that are there matters. -/
theorem mapPages_congr {f g : PageId → Page → Page} (h : ∀ {id p}, s.pages[id]? = some p →
    f id p = g id p) :
    s.mapPages f = s.mapPages g := by
  unfold mapPages
  congr 1
  refine Array.ext_getElem? fun id => ?_
  simp only [Array.getElem?_mapIdx]
  exact Option.map_congr fun p hp => h hp

theorem mapPages_id (s : PageStore) : s.mapPages (fun _ p => p) = s := by
  unfold mapPages
  congr 1
  refine Array.ext_getElem? fun id => ?_
  rw [Array.getElem?_mapIdx, Option.map_id']

/-- A page of a store whose pages were all changed. -/
theorem page_mapPages (s : PageStore) (f : PageId → Page → Page) {id : PageId}
    (hid : id < s.pages.size) :
    (s.mapPages f).page id = f id (s.page id) := by
  simp only [page, mapPages, Array.getD_eq_getD_getElem?, Array.getElem?_mapIdx,
    Array.getElem?_eq_getElem hid, Option.map_some, Option.getD_some]

/-- A change of one page goes into the change of all. -/
theorem mapPages_updatePage (s : PageStore) (id : PageId) (f : Page → Page)
    (g : PageId → Page → Page) :
    (s.updatePage id f).mapPages g = s.mapPages fun other p =>
      g other (if id = other then f p else p) := by
  unfold mapPages updatePage
  congr 1
  refine Array.ext_getElem? fun other => ?_
  simp only [Array.getElem?_mapIdx, Array.getElem?_modify]
  split
  · rw [Option.map_map]
    rfl
  · rfl

/-- Two changes of a page are one. -/
theorem updatePage_updatePage (s : PageStore) (id : PageId) (f g : Page → Page) :
    (s.updatePage id f).updatePage id g = s.updatePage id fun p => g (f p) := by
  unfold updatePage
  congr 1
  refine Array.ext_getElem? fun other => ?_
  simp only [Array.getElem?_modify]
  split
  · rw [Option.map_map]
    rfl
  · rfl

/-- The pages let go are collected and closed, and their numbers are free. -/
theorem letGo_eq (s : PageStore) (expired : List (Nat × PageId)) :
    s.letGo expired
      = { s.mapPages fun id p => if id ∈ expired.map Prod.snd then p.collect.close else p with
          cached := expired.foldl (fun cached entry => cached.erase entry.1) s.cached } := by
  induction expired generalizing s with
  | nil => simp [letGo, mapPages_id]
  | cons first rest ih =>
    refine (ih _).trans ?_
    have hpages := mapPages_updatePage s first.2 (·.collect.close) fun id p =>
      if id ∈ rest.map Prod.snd then p.collect.close else p
    have hsame : (s.mapPages fun other p => if other ∈ rest.map Prod.snd
          then (if first.2 = other then p.collect.close else p).collect.close
          else if first.2 = other then p.collect.close else p)
        = s.mapPages fun id p => if id ∈ (first :: rest).map Prod.snd then p.collect.close
          else p := by
      refine mapPages_congr fun {id p} _ => ?_
      rw [List.map_cons]
      by_cases hfirst : first.2 = id
      · simp [hfirst]
      · simp only [List.mem_cons, Ne.symm hfirst, false_or, hfirst, if_false]
    rw [← hsame, ← hpages]
    rfl

/-- A sweep takes no ticket away. -/
theorem creating_letGo (s : PageStore) (expired : List (Nat × PageId)) :
    (s.letGo expired).creating = s.creating := by
  rw [letGo_eq]
  rfl

/-- A page that is let go is collected and closed. -/
theorem page_letGo_of_mem {index : Nat} {id : PageId} (hmem : (index, id) ∈ expired)
    (hid : id < s.pages.size) : (s.letGo expired).page id = (s.page id).collect.close := by
  have hgone : id ∈ expired.map Prod.snd := List.mem_map.mpr ⟨_, hmem, rfl⟩
  rw [letGo_eq]
  exact (page_mapPages s _ hid).trans (if_pos hgone)

/-- What is let go for no number stays as it is. -/
theorem page_letGo_of_free {id : PageId} (h : ∀ index, (index, id) ∉ expired) :
    (s.letGo expired).page id = s.page id := by
  refine page_letGo fun entry hentry heq => h entry.1 ?_
  rwa [← heq]

/-- What is let go is no longer in the cache, and the rest of the cache stays. -/
theorem getElem?_cached_letGo {index : Nat} {id : PageId} (h : s.Expired expired) :
    (s.letGo expired).cached[index]? = some id ↔ s.cached[index]? = some id
    ∧ ∀ i, (i, id) ∉ expired := by
  constructor
  · intro hid
    obtain ⟨hold, hleft⟩ := cached_letGo hid
    exact ⟨hold, fun i hmem => hleft id (h.all _ hmem index hold)⟩
  · intro hand
    obtain ⟨hold, hleft⟩ := hand
    rw [letGo_eq]
    refine (getElem?_foldl_erase ..).trans ((if_neg fun hmem => ?_).trans hold)
    obtain ⟨entry, hentry, rfl⟩ := List.mem_map.mp hmem
    obtain rfl := Option.some.inj ((h.cached _ hentry).symm.trans hold)
    exact hleft _ hentry

/-- What is done to pages one after the other, and a second time makes no difference, is done to
each of them. -/
theorem foldl_updatePage_eq {f : Page → Page} (hf : ∀ p, f (f p) = f p) (s : PageStore)
    (ids : List PageId) :
    ids.foldl (fun s id => s.updatePage id f) s = s.mapPages fun id p => if id ∈ ids then f p
      else p := by
  induction ids generalizing s with
  | nil => simp [mapPages_id]
  | cons first rest ih =>
    rw [List.foldl_cons, ih, mapPages_updatePage]
    refine mapPages_congr fun {id p} _ => ?_
    by_cases hfirst : first = id
    · simp [hfirst, hf]
    · simp [hfirst, Ne.symm hfirst]

/-- A page that is let go may have been collected before. -/
theorem letGo_updatePage_collect (s : PageStore) {id : PageId} (hid : id ∈ expired.map Prod.snd) :
    (s.updatePage id Page.collect).letGo expired = s.letGo expired := by
  have hsame : (s.mapPages fun other p => if other ∈ expired.map Prod.snd
        then (if id = other then p.collect else p).collect.close
        else if id = other then p.collect else p)
      = s.mapPages fun other p => if other ∈ expired.map Prod.snd then p.collect.close else p := by
    refine mapPages_congr fun {other p} _ => ?_
    by_cases hother : id = other
    · subst hother
      simp only [if_pos hid, if_true, Page.collect_collect]
    · simp only [hother, if_false]
  rw [letGo_eq, letGo_eq, mapPages_updatePage, hsame]
  rfl

/-- Pages that were collected are let go by taking them out of the cache and closing them. -/
theorem letGo_of_collected (h : ∀ {index id}, (index, id) ∈ gone → (s.page id).references = -1) :
    s.letGo gone
      = (gone.map Prod.snd).foldl (fun s id => s.updatePage id Page.close)
          { s with cached := gone.foldl (fun cached entry => cached.erase entry.1) s.cached } := by
  have hsame : (s.mapPages fun id p => if id ∈ gone.map Prod.snd then p.collect.close else p)
      = s.mapPages fun id p => if id ∈ gone.map Prod.snd then p.close else p := by
    refine mapPages_congr fun {id p} hid => ite_congr rfl (fun hmem => ?_) fun _ => rfl
    obtain ⟨⟨index, _⟩, hgone, rfl⟩ := List.mem_map.mp hmem
    have hreferences := h hgone
    rw [page, Array.getD_eq_getD_getElem?, hid, Option.getD_some] at hreferences
    rw [Page.collect_of_references hreferences]
  rw [letGo_eq, foldl_updatePage_eq Page.close_close, hsame]
  rfl

end PageStore

namespace PageStage

/-! ## What is left to do -/

/-- Makes a page under a ticket, and hands it out. -/
def underTicket (index : Nat) (p : Procedure PageStore PageId) : Procedure PageStore PageAnswer :=
  return .page index (← tryFinally p (PageStore.withdrawTicket index))

/-- Hands out a page that is in the cache. -/
def handOut (index : Nat) (id : PageId) : Procedure PageStore PageAnswer := do
  PageStore.withdrawTicket index
  return .page index id

/-- What is left once a page was looked up. -/
def afterLook (index : Nat) : Option Nat → Option PageId → Procedure PageStore PageAnswer
  | none, some id => return .page index id
  | none, none => do
    discard (PageStore.takeTicket index)
    underTicket index (PageStore.createPage index)
  | some _, some id => handOut index id
  | some _, none => underTicket index (do PageStore.insert index (← PageStore.map index))

/-- What is left once a user was counted. -/
def afterFound : Counting → PageId → Procedure PageStore PageAnswer
  | .look index ticket?, id => do
    let now ← look
    update (·.updatePage id (·.touch now))
    afterLook index ticket? (some id)
  | .insert index _ _, id => do
    discard PageStore.sweep
    handOut index id

/-- Puts a new page into the cache. -/
def putting (index : Nat) (page : Page) : Procedure PageStore PageAnswer := do
  let id := (← memory).pages.size
  update fun s => { s with pages := s.pages.push page.retain, cached := s.cached.insert index id }
  discard PageStore.sweep
  handOut index id

/-- What is left if the page was collected. -/
def afterMissed : Counting → Procedure PageStore PageAnswer
  | .look index ticket? => afterLook index ticket? none
  | .insert index _ page => putting index page

/-- What is left once the cache was swept. -/
def afterSweep : Swept → Nat → Procedure PageStore PageAnswer
  | .call, count => return .swept count
  | .lease index _ id, _ => handOut index id

/-- Whether a sweep lets a page go. -/
def isLeft (s : PageStore) (now : Int) (id : PageId) : Bool :=
  (s.page id).isExpired s.maxAge now && (s.page id).isIdle

/-- Lets some pages go. -/
def lettingGo (swept : Swept) (expired : List (Nat × PageId)) : Procedure PageStore PageAnswer := do
  update (·.letGo expired)
  afterSweep swept expired.length

/-- What a client has left to do at a stage, if no other client disturbs it. -/
def rest : PageStage → Procedure PageStore PageAnswer
  | .lookUp index none => (PageCall.acquire index).run
  | .lookUp index (some _) | .awaitTurn index _ => underTicket index (PageStore.createPage index)
  | .readCount place id | .raiseCount place id _ => do
    if ((← memory).page id).isLive then
      update (·.updatePage id Page.retain)
      afterFound place id
    else afterMissed place
  | .touchFound index ticket? id => afterFound (.look index ticket?) id
  | .leaveLook index ticket? found? => afterLook index ticket? found?
  | .takeTicket index => afterLook index none none
  | .map index ticket => afterLook index (some ticket) none
  | .openInsert index _ page => underTicket index (PageStore.insert index page)
  | .putPage index _ page => putting index page
  | .leaveInsert index _ id => do
    discard PageStore.sweep
    handOut index id
  | .startSweep swept => do afterSweep swept (← PageStore.sweep)
  | .openSweep swept now => do
    let s ← memory
    lettingGo swept (s.cached.toList.filter fun entry => isLeft s now entry.2)
  | .examine swept now rest gone => do
    let s ← memory
    lettingGo swept (gone ++ rest.filter fun entry => isLeft s now entry.2)
  | .collect swept now index id rest gone => do
    let s ← memory
    let first := if (s.page id).isIdle then [(index, id)] else []
    lettingGo swept (gone ++ first ++ rest.filter fun entry => isLeft s now entry.2)
  | .leaveSweep swept gone => lettingGo swept gone
  | .closePages swept ids count => do
    update fun s => ids.foldl (fun s id => s.updatePage id Page.close) s
    afterSweep swept count
  | .leaveTurn index _ answer | .withdrawTicket index answer => do
    PageStore.withdrawTicket index
    return .page index (← ofExcept answer)
  | .findLeased index => (PageCall.release index).run
  | .lowerCount _ id => (PageCall.giveBack id).run
  | .touchBack _ id => do
    let now ← look
    update (·.updatePage id (·.touch now))
    return .done
  | .leaveRelease => return .done
  | .use id how => how.run id
  | .ended answer => ofExcept answer

/-- All that is left of a call at its start is the call. -/
theorem rest_start (call : PageCall) : (start call).rest = call.run := by
  cases call with
  | sweep => rfl
  | _ => rfl

/-! ## One step after the other -/

end PageStage

/-- The pages in the cache are filed under their own numbers. -/
def PageStore.Filed (s : PageStore) : Prop :=
  ∀ index id, s.cached[index]? = some id → id < s.pages.size ∧ (s.page id).index = index

namespace PageStore

variable {s : PageStore} {id : PageId}

/-- Pages keep their numbers as long as no change touches one. -/
theorem Filed.updatePage (h : s.Filed) {f : Page → Page} (hf : ∀ p, (f p).index = p.index) :
    (s.updatePage id f).Filed := fun index other hother => by
  obtain ⟨hlt, hindex⟩ := h index other hother
  rw [size_updatePage, updatePage_leaves Page.index hf]
  exact ⟨hlt, hindex⟩

/-- A page stands for one number at most. -/
theorem Filed.nodup (h : s.Filed) : (s.cached.toList.map Prod.snd).Nodup := by
  have hindex {entry : Nat × PageId} (hentry : entry ∈ s.cached.toList) :
      (s.page entry.2).index = entry.1 :=
    (h _ _ (Std.TreeMap.mem_toList_iff_getElem?_eq_some.mp hentry)).2
  refine List.pairwise_map.mpr
    (s.cached.distinct_keys_toList.imp_of_mem fun hentry hother hne heq => hne ?_)
  rw [← hindex hentry, heq, hindex hother]
  exact Std.ReflCmp.compare_self

end PageStore

namespace PageStage

/-- What a client that is alone finds at a stage. -/
structure Settled (k : PageStage) (s : PageStore) : Prop where
  filed : s.Filed
  count : ∀ {index id count}, (index, id) ∈ k.seen → k.count? = some count →
    (s.page id).references = count := by
    intros; rename_i h; cases h
  mapped : ∀ {index page}, k.mapped? = some (index, page) → page.index = index := by
    intros; rename_i h; cases h
  distinct : (k.seen.map Prod.snd).Nodup := by exact List.nodup_nil
  gone : ∀ {index id}, (index, id) ∈ k.gone → (s.page id).references = -1 := by
    intros; rename_i h; cases h

/-- How many kinds of steps are ahead at most. -/
def kindsAhead : PageStage → Nat
  | .lookUp _ none => 25
  | .readCount (.look _ none) _ => 24
  | .raiseCount (.look _ none) _ _ => 23
  | .touchFound _ none _ => 22
  | .leaveLook _ none _ => 21
  | .takeTicket _ => 20
  | .awaitTurn _ _ => 19
  | .lookUp _ (some _) => 18
  | .readCount (.look _ (some _)) _ => 17
  | .raiseCount (.look _ (some _)) _ _ => 16
  | .touchFound _ (some _) _ => 15
  | .leaveLook _ (some _) _ => 14
  | .map _ _ => 13
  | .openInsert _ _ _ => 12
  | .readCount (.insert _ _ _) _ => 11
  | .raiseCount (.insert _ _ _) _ _ => 10
  | .putPage _ _ _ => 9
  | .leaveInsert _ _ _ => 8
  | .startSweep _ => 7
  | .openSweep _ _ => 6
  | .examine _ _ _ _ | .collect _ _ _ _ _ _ => 5
  | .leaveSweep _ _ => 4
  | .closePages _ _ _ => 3
  | .leaveTurn _ _ _ => 2
  | .withdrawTicket _ _ => 1
  | .findLeased _ => 4
  | .lowerCount _ _ => 3
  | .touchBack _ _ => 2
  | .leaveRelease => 1
  | .use _ _ => 1
  | .ended _ => 0

/-- How many pages are left to be looked at or closed. -/
def pagesAhead : PageStage → Nat
  | .examine _ _ rest _ => 2 * rest.length
  | .collect _ _ _ _ rest _ => 2 * rest.length + 1
  | .closePages _ ids _ => ids.length
  | _ => 0

/-- How far a call is from its end. -/
def distance (k : PageStage) : Nat ×ₗ Nat := toLex (k.kindsAhead, k.pagesAhead)

/-- A client that is alone goes from one stage to another: what is left to do stays the same. -/
structure GoesTo (k : PageStage) (s : Session PageStore) (k' : PageStage) (t : Session PageStore) :
    Prop where
  rest : k'.rest t = k.rest s
  nears : (∃ answer, k = .ended answer) ∨ k'.Settled t.memory ∧ k'.distance < k.distance

/-- A stage of a nearer kind is nearer. -/
theorem distance_lt_of_kind {k k' : PageStage} (h : k'.kindsAhead < k.kindsAhead) :
    k'.distance < k.distance := Prod.Lex.toLex_lt_toLex.mpr (.inl h)

/-- So is one of the same kind with fewer pages ahead. -/
theorem distance_lt_of_pages {k k' : PageStage} (hkind : k'.kindsAhead = k.kindsAhead)
    (h : k'.pagesAhead < k.pagesAhead) : k'.distance < k.distance :=
  Prod.Lex.toLex_lt_toLex.mpr (.inr ⟨hkind, h⟩)

variable {k k' : PageStage} {s t : Session PageStore}

theorem goesTo (hrest : k'.rest t = k.rest s) (hsettled : k'.Settled t.memory)
    (hnear : k'.kindsAhead < k.kindsAhead) : GoesTo k s k' t :=
  ⟨hrest, .inr ⟨hsettled, distance_lt_of_kind hnear⟩⟩

private theorem memory_bind {α : Type} (f : PageStore → Procedure PageStore α)
    (s : Session PageStore) :
    (memory >>= f) s = f s.memory s := rfl

/-- A page in the cache is handed out by a lookup if it was not collected. -/
private theorem lookup_eq (index : Nat) : PageStore.lookup index = do
    let s ← memory
    match s.cached[index]? with
    | some id =>
      if (s.page id).isLive then
        update (·.updatePage id Page.retain)
        let now ← look
        update (·.updatePage id (·.touch now))
        return some id
      else return none
    | none => return none := by
  funext s
  unfold PageStore.lookup
  rw [memory_bind, memory_bind]
  cases s.memory.cached[index]? with
  | none => rfl
  | some id =>
    cases hlive : (s.memory.page id).isLive with
    | true =>
      simp only [Option.filter_some, hlive, if_true, bind, EStateM.bind, look, update, pure,
        EStateM.pure, PageStore.updatePage_updatePage]
    | false => simp only [Option.filter_some, hlive, Bool.false_eq_true, if_false]

/-- What follows on a page that is in the cache. -/
private theorem lookup_bind {α : Type} (f : Option PageId → Procedure PageStore α)
    {id : PageId} {index : Nat} (hid : s.memory.cached[index]? = some id) :
    (PageStore.lookup index >>= f) s
      = (if (s.memory.page id).isLive then do
          update (·.updatePage id Page.retain)
          let now ← look
          update (·.updatePage id (·.touch now))
          f (some id)
        else f none) s := by
  rw [lookup_eq, bind_assoc, memory_bind, hid]
  dsimp only
  split <;> rfl

/-- What follows on a page that is not. -/
private theorem lookup_bind_none {α : Type} (f : Option PageId → Procedure PageStore α)
    {index : Nat}
    (hnone : s.memory.cached[index]? = none) : (PageStore.lookup index >>= f) s = f none s := by
  rw [lookup_eq, bind_assoc, memory_bind, hnone]
  rfl

private theorem underTicket_congr {index : Nat} {p q : Procedure PageStore PageId} (h : p s = q t) :
    underTicket index p s = underTicket index q t := by
  simp only [underTicket, bind, EStateM.bind, tryFinally, MonadFinally.tryFinally',
    Functor.map, EStateM.map, h]

/-- To look a page up is a step of its call. -/
theorem lookUp_goes {index : Nat} {ticket? : Option Nat} (hfiled : s.memory.Filed) :
    (act (.lookUp index ticket?)).Ensures s fun k' t => GoesTo (.lookUp index ticket?) s k' t := by
  simp only [act, Ensures, leads_bind, leads_memory]
  split
  next id hid =>
    refine goesTo ?_ { filed := hfiled, distinct := by simp [seen] }
      (by cases ticket? <;> simp [kindsAhead])
    cases ticket? with
    | none =>
      simp only [rest, PageCall.run, PageStore.acquire, bind_assoc, memory_bind]
      rw [lookup_bind _ hid]
      split
      · rfl
      · simp only [bind_assoc]
        rfl
    | some ticket =>
      simp only [rest, memory_bind]
      refine Eq.trans ?_ (underTicket_congr (lookup_bind _ hid).symm)
      split <;> rfl
  next hnone =>
    refine goesTo ?_ { filed := hfiled } (by cases ticket? <;> simp [kindsAhead])
    cases ticket? with
    | none =>
      simp only [rest, PageCall.run, PageStore.acquire, bind_assoc]
      rw [lookup_bind_none _ hnone]
      simp only [bind_assoc]
      rfl
    | some ticket =>
      have hcreate : PageStore.createPage index s
          = (PageStore.map index >>= PageStore.insert index) s := lookup_bind_none _ hnone
      exact (underTicket_congr hcreate).symm

/-- So is to raise the count of references. -/
theorem raiseCount_goes {place : Counting} {id : PageId} {count : Int}
    (h : (raiseCount place id count).Settled s.memory) :
    (act (.raiseCount place id count)).Ensures s fun k' t =>
      GoesTo (.raiseCount place id count) s k' t := by
  have hcount := h.count List.mem_cons_self rfl
  simp only [act, Ensures, leads_bind, leads_memory, leads_ite, leads_update, leads_pure]
  split
  next hneg =>
    have hdead : (s.memory.page id).isLive = false := by
      rw [Page.isLive, hcount]
      exact decide_eq_false (Int.not_le.mpr hneg)
    refine goesTo ?_ ?_ ?_
    · simp only [rest, memory_bind, hdead, Bool.false_eq_true, if_false]
      cases place <;> rfl
    · cases place with
      | look => exact { filed := h.filed }
      | insert => exact { filed := h.filed, mapped := h.mapped }
    · rcases place with ⟨index, _ | _⟩ | _ <;> simp [Counting.missed, kindsAhead]
  next hpos =>
    have hlive : (s.memory.page id).isLive = true := by
      rw [Page.isLive, hcount]
      exact decide_eq_true (Int.not_lt.mp hpos)
    rw [if_neg (by simpa using hcount)]
    have hfiled : (s.memory.updatePage id Page.retain).Filed := h.filed.updatePage fun _ => rfl
    refine goesTo ?_ ?_ ?_
    · simp only [rest, memory_bind, hlive, if_true]
      cases place <;> rfl
    · cases place <;> exact { filed := hfiled }
    · rcases place with ⟨index, _ | _⟩ | _ <;> simp [Counting.found, kindsAhead]

/-- So is to examine a page that a sweep comes to. -/
theorem examine_goes {swept : Swept} {now : Int} {left gone : List (Nat × PageId)}
    (h : (examine swept now left gone).Settled s.memory) :
    (act (.examine swept now left gone)).Ensures s
      fun k' t => GoesTo (.examine swept now left gone) s k' t := by
  cases left with
  | nil =>
    refine goesTo ?_ { filed := h.filed, gone := h.gone } (by simp [kindsAhead])
    simp [rest, memory_bind]
  | cons first left =>
    obtain ⟨index, id⟩ := first
    have hdistinct := List.nodup_cons.mp h.distinct
    simp only [act, Ensures, leads_bind, leads_memory, leads_ite, leads_pure]
    split
    next hexpired =>
      refine ⟨?_, .inr ⟨{ filed := h.filed, gone := h.gone, distinct := h.distinct },
        distance_lt_of_pages rfl (by simp [pagesAhead]; omega)⟩⟩
      simp only [rest, memory_bind, List.filter_cons, isLeft, hexpired, Bool.true_and,
        List.append_assoc]
      split <;> simp only [List.singleton_append, List.nil_append]
    next hyoung =>
      refine ⟨?_, .inr ⟨{ filed := h.filed, gone := h.gone, distinct := hdistinct.2 },
        distance_lt_of_pages rfl (by simp [pagesAhead])⟩⟩
      simp only [rest, memory_bind, List.filter_cons, isLeft, Bool.eq_false_of_not_eq_true hyoung,
        Bool.false_and, Bool.false_eq_true, if_false]

/-- So is to collect one. -/
theorem collect_goes {swept : Swept} {now : Int} {index : Nat} {id : PageId}
    {left gone : List (Nat × PageId)}
    (h : (collect swept now index id left gone).Settled s.memory) :
    (act (.collect swept now index id left gone)).Ensures s
      fun k' t => GoesTo (.collect swept now index id left gone) s k' t := by
  have hdistinct := List.nodup_cons.mp h.distinct
  have hnear {gone' : List (Nat × PageId)} :
      (examine swept now left gone').distance < (collect swept now index id left gone).distance :=
    distance_lt_of_pages rfl (by simp [pagesAhead])
  simp only [act, Ensures, leads_bind, leads_memory, leads_ite, leads_update, leads_pure]
  split
  next hidle =>
    have hother {other : PageId} (hmem : other ∈ left.map Prod.snd) :
        (s.memory.updatePage id Page.collect).page other = s.memory.page other := by
      refine PageStore.page_updatePage_of_ne ?_ _
      rintro rfl
      exact hdistinct.1 hmem
    refine ⟨?_, .inr ⟨{ filed := ?_, gone := ?_, distinct := hdistinct.2 }, hnear⟩⟩
    · -- the pages that are left are as old and as idle as before
      have hfilter : left.filter
          (fun entry => isLeft (s.memory.updatePage id Page.collect) now entry.2)
          = left.filter fun entry => isLeft s.memory now entry.2 :=
        List.filter_congr fun entry hentry => by
          unfold isLeft
          rw [hother (List.mem_map_of_mem hentry)]
          rfl
      simp only [rest, memory_bind, hidle, if_true, hfilter]
      let expired := gone ++ [(index, id)] ++ left.filter fun entry => isLeft s.memory now entry.2
      have hid : id ∈ expired.map Prod.snd := List.mem_map.mpr ⟨(index, id), by simp [expired], rfl⟩
      have hlets : (s.memory.updatePage id Page.collect).letGo expired = s.memory.letGo expired :=
        s.memory.letGo_updatePage_collect hid
      simp only [lettingGo, bind, EStateM.bind, update]
      rw [hlets]
    · exact h.filed.updatePage fun _ => rfl
    · intro index' id' hgone
      rw [PageStore.page_updatePage]
      split
      · rfl
      next hne =>
        rcases List.mem_append.mp hgone with hgone | hgone
        · exact h.gone hgone
        · cases List.mem_singleton.mp hgone
          have hreferences : (s.memory.page id).references = 0 := by simpa [Page.isIdle] using hidle
          exact absurd ⟨rfl, PageStore.lt_size_of_references (by rw [hreferences]; decide)⟩ hne
  next hbusy =>
    refine ⟨?_, .inr ⟨{ filed := h.filed, gone := h.gone, distinct := hdistinct.2 }, hnear⟩⟩
    simp [rest, memory_bind, Bool.eq_false_of_not_eq_true hbusy]


/-- A page is put into the cache unless one is there that was not collected. -/
private theorem insert_eq {index : Nat} (page : Page) {id : PageId}
    (hid : s.memory.cached[index]? = some id) :
    PageStore.insert index page s
      = (if (s.memory.page id).isLive then do
          update (·.updatePage id Page.retain)
          discard PageStore.sweep
          return id
        else do
          let id := (← memory).pages.size
          update fun s =>
            { s with pages := s.pages.push page.retain, cached := s.cached.insert index id }
          discard PageStore.sweep
          return id : Procedure PageStore PageId) s := by
  unfold PageStore.insert
  rw [memory_bind, hid]
  cases hlive : (s.memory.page id).isLive with
  | true => simp only [Option.filter_some, hlive, if_true]
  | false =>
    simp only [Option.filter_some, hlive, Bool.false_eq_true, if_false]
    rfl

private theorem insert_eq_none {index : Nat} (page : Page)
    (hnone : s.memory.cached[index]? = none) :
    PageStore.insert index page s
      = (do
          let id := (← memory).pages.size
          update fun s =>
            { s with pages := s.pages.push page.retain, cached := s.cached.insert index id }
          discard PageStore.sweep
          return id : Procedure PageStore PageId) s := by
  unfold PageStore.insert
  rw [memory_bind, hnone]
  rfl

/-- So is to open the entry of the cache for a page just mapped. -/
theorem openInsert_goes {index ticket : Nat} {page : Page}
    (h : (openInsert index ticket page).Settled s.memory) :
    (act (.openInsert index ticket page)).Ensures s
      fun k' t => GoesTo (.openInsert index ticket page) s k' t := by
  simp only [act, Ensures, leads_bind, leads_memory]
  split
  next id hid =>
    refine goesTo ?_ { filed := h.filed, mapped := h.mapped, distinct := by simp [seen] }
      (by simp [kindsAhead])
    simp only [rest, memory_bind]
    refine Eq.trans ?_ (underTicket_congr (insert_eq page hid).symm)
    split <;> rfl
  next hnone =>
    refine goesTo ?_ { filed := h.filed, mapped := h.mapped } (by simp [kindsAhead])
    exact (underTicket_congr (insert_eq_none page hnone)).symm

/-- A page that is put under its own number leaves every page under its own. -/
theorem putPage_filed {index : Nat} {page : Page} {m : PageStore} (h : m.Filed)
    (hindex : page.index = index) :
    PageStore.Filed
      { m with
        pages := m.pages.push page.retain
        cached := m.cached.insert index m.pages.size } := by
  intro other id hid
  simp only [Std.TreeMap.getElem?_insert, Nat.compare_eq_eq] at hid
  simp only [PageStore.page, Array.getD_eq_getD_getElem?, Array.size_push, Array.getElem?_push]
  split at hid
  next heq =>
    cases hid
    simp [Page.retain, hindex, heq]
  next =>
    obtain ⟨hlt, hfiled⟩ := h _ _ hid
    rw [if_neg (Nat.ne_of_lt hlt), ← Array.getD_eq_getD_getElem?]
    exact ⟨Nat.lt_succ_of_lt hlt, hfiled⟩

/-- A step of a client that is alone leaves to do what was left before it. -/
theorem act_goes {k : PageStage} {s : Session PageStore} (h : k.Settled s.memory) :
    k.act.Leads s (fun k' t => GoesTo k s k' t)
      fun fault t => k.turn? = none ∧ k.rest s = .error fault t := by
  cases k with
  | lookUp => exact (lookUp_goes h.filed).leads
  | readCount place id =>
    simp only [act, leads_bind, leads_memory, leads_pure]
    refine goesTo rfl ?_ (by rcases place with ⟨index, _ | _⟩ | _ <;> simp [kindsAhead])
    exact {
      filed := h.filed
      count := fun hseen hcount => by cases hcount; cases List.mem_singleton.mp hseen; rfl
      mapped := fun hmapped => h.mapped (by cases place <;> exact hmapped)
      distinct := h.distinct }
  | raiseCount => exact (raiseCount_goes h).leads
  | touchFound index ticket? id =>
    simp only [act, leads_bind, leads_look, leads_update, leads_pure]
    refine goesTo rfl { filed := h.filed.updatePage fun p => ?_ }
      (by cases ticket? <;> simp [kindsAhead])
    unfold Page.touch
    split <;> rfl
  | leaveLook index ticket? found? =>
    cases ticket? <;> cases found? <;> exact goesTo rfl { filed := h.filed } (by simp [kindsAhead])
  | takeTicket index =>
    unfold act PageStore.takeTicket
    simp only [leads_bind, leads_memory]
    split
    next ticket hticket =>
      refine goesTo ?_ { filed := h.filed } (by simp [kindsAhead])
      simp only [rest, afterLook, discard_eq_bind, bind_assoc, pure_bind, PageStore.takeTicket,
        memory_bind, hticket]
    next hnone =>
      refine goesTo ?_ { filed := h.filed } (by simp [kindsAhead])
      simp only [rest, afterLook, discard_eq_bind, bind_assoc, pure_bind, PageStore.takeTicket,
        memory_bind, hnone]
      rfl
  | awaitTurn => exact goesTo rfl { filed := h.filed } (by simp [kindsAhead])
  | map index ticket =>
    have hmap := (PageStore.map_mapped index s).and (leads_answer (PageStore.map index) s)
    unfold act
    rw [leads_tryCatch, leads_bind]
    refine hmap.mono (fun page t ht => ?_) fun fault t ht => ?_
    · obtain ⟨⟨hsame, hindex, -⟩, hrun⟩ := ht
      refine goesTo ?_ { filed := hsame ▸ h.filed, mapped := fun heq => by cases heq; exact hindex }
        (by simp [kindsAhead])
      refine (underTicket_congr ?_).symm
      simp only [bind, EStateM.bind, hrun]
    · obtain ⟨hsame, hrun⟩ := ht
      refine goesTo ?_ { filed := hsame ▸ h.filed } (by simp [kindsAhead])
      simp only [rest, afterLook, underTicket, bind, EStateM.bind, tryFinally,
        MonadFinally.tryFinally', Functor.map, EStateM.map, hrun]
      rfl
  | openInsert => exact (openInsert_goes h).leads
  | putPage index ticket page =>
    simp only [act, leads_bind, leads_memory, leads_update, leads_pure]
    exact goesTo rfl { filed := putPage_filed h.filed (h.mapped rfl) } (by simp [kindsAhead])
  | leaveInsert => exact goesTo rfl { filed := h.filed } (by simp [kindsAhead])
  | startSweep swept =>
    simp only [act, leads_bind, leads_look, leads_pure]
    exact goesTo rfl { filed := h.filed } (by simp [kindsAhead])
  | openSweep swept now =>
    simp only [act, leads_bind, leads_memory, leads_pure]
    exact goesTo rfl { filed := h.filed, distinct := h.filed.nodup } (by simp [kindsAhead])
  | examine => exact (examine_goes h).leads
  | collect => exact (collect_goes h).leads
  | leaveSweep swept gone =>
    simp only [act, leads_bind, leads_update, leads_pure]
    refine goesTo ?_ { filed := ?_ } (by simp [kindsAhead])
    · have hlets := PageStore.letGo_of_collected h.gone
      simp only [PageStage.gone] at hlets
      simp only [rest, lettingGo, bind, EStateM.bind, update, hlets]
    · intro index id hid
      rw [PageStore.getElem?_foldl_erase] at hid
      split at hid
      · cases hid
      · exact h.filed _ _ hid
  | closePages swept ids count =>
    cases ids with
    | nil => cases swept <;> exact goesTo rfl { filed := h.filed } (by simp [kindsAhead])
    | cons id ids =>
      simp only [act, leads_bind, leads_update, leads_pure]
      refine ⟨rfl, .inr ⟨{ filed := h.filed.updatePage fun p => ?_ },
        distance_lt_of_pages rfl (by simp [pagesAhead])⟩⟩
      unfold Page.close Page.flush
      split <;> rfl
  | leaveTurn => exact goesTo rfl { filed := h.filed } (by simp [kindsAhead])
  | withdrawTicket index answer =>
    unfold act PageStore.withdrawTicket
    simp only [leads_bind, leads_update, leads_pure]
    refine goesTo ?_ { filed := h.filed } (by simp [kindsAhead])
    cases answer <;> rfl
  | findLeased index =>
    simp only [act, leads_bind, leads_memory]
    split
    next id hid =>
      refine goesTo ?_ { filed := h.filed } (by simp [kindsAhead])
      simp only [rest, PageCall.run, PageStore.release, bind_assoc, memory_bind, hid]
    next hnone =>
      refine goesTo ?_ { filed := h.filed } (by simp [kindsAhead])
      simp only [rest, PageCall.run, PageStore.release, bind_assoc, memory_bind, hnone]
      rfl
  | lowerCount byNumber id =>
    simp only [act, leads_bind, leads_update, leads_pure]
    exact goesTo rfl { filed := h.filed.updatePage fun _ => rfl } (by simp [kindsAhead])
  | touchBack byNumber id =>
    simp only [act, leads_bind, leads_look, leads_update, leads_pure]
    have hfiled : (s.memory.updatePage id (·.touch s.host.now)).Filed :=
      h.filed.updatePage fun p => by
      unfold Page.touch
      split <;> rfl
    cases byNumber <;> exact goesTo rfl { filed := hfiled } (by simp [kindsAhead])
  | leaveRelease => exact goesTo rfl { filed := h.filed } (by simp [kindsAhead])
  | use id how =>
    have hrun := leads_answer (how.run id) s
    simp only [act, leads_bind, leads_pure]
    refine ((how.run_alike id s).and hrun).mono (fun answer t ht => ?_) fun fault t ht =>
      ⟨rfl, ht.2⟩
    obtain ⟨⟨ha, -⟩, hrun⟩ := ht
    refine goesTo hrun.symm { filed := fun index id hid => ?_ } (by simp [kindsAhead])
    rw [ha.cached] at hid
    rw [ha.size, ha.index]
    exact h.filed _ _ hid
  | ended answer => exact ⟨rfl, .inl ⟨answer, rfl⟩⟩

/-! ## A client that is alone -/

/-- The locks that a client has at a stage while no other one has any. -/
def held (k : PageStage) (store : PageStore) : SharedStore where
  store := store
  readers := if k.section? = some .reading then 1 else 0
  isWritten := k.section? = some .writing
  turns := k.turn?.toList

/-- A client that is alone gives up what it has and gets what it needs. -/
theorem pass_held (k k' : PageStage) (store : PageStore) :
    (k.held store).pass k k' = k'.held store := by
  have hturns : k.turn?.toList.foldl List.erase k.turn?.toList = [] := by
    cases k.turn? <;> simp
  simp only [SharedStore.pass, held, hturns, List.append_nil, Nat.sub_self, Nat.zero_add]
  cases k.section? with
  | none => simp
  | some kind => cases kind <;> simp

/-- A client that is alone waits for nothing. -/
theorem grants_held (k : PageStage) (store : PageStore) :
    k.awaits.all (k.held store).grants = true := by
  cases k <;> rfl

/-- What a client that is alone has left to do, after which it has no lock. -/
def restAlone (k : PageStage) : Procedure SharedStore PageAnswer :=
  within SharedStore.store (fun store _ => { store }) k.rest

/-- What is left of a call, run without the tickets, comes to the same. -/
theorem outcome_restAlone (k : PageStage) (s : Session SharedStore) :
    k.restAlone.outcome s
      = ((k.rest.outcome ⟨s.host, s.memory.store⟩).1,
        ⟨(k.rest.outcome ⟨s.host, s.memory.store⟩).2.host,
          { store := (k.rest.outcome ⟨s.host, s.memory.store⟩).2.memory }⟩) :=
  outcome_within ..

/-- A step of a call leaves what the rest of it comes to, and goes nearer to its end. -/
theorem advance_goes {k : PageStage} {s : Session SharedStore} (hsettled : k.Settled s.memory.store)
    (hheld : s.memory = k.held s.memory.store) :
    k.advance.Leads s (fun k' t => k'.restAlone.outcome t = k.restAlone.outcome s
        ∧ ((∃ answer, k = .ended answer)
          ∨ (k'.Settled t.memory.store ∧ t.memory = k'.held t.memory.store)
          ∧ k'.distance < k.distance))
      fun fault t => k.restAlone.outcome s = (.error fault, t) := by
  have hgrants : k.awaits.all s.memory.grants = true := hheld ▸ grants_held k s.memory.store
  refine advance_leads (fun hblocked => absurd (hgrants.symm.trans hblocked) (by simp)) fun _ => ?_
  refine ((act_passes k _).and (act_goes (s := ⟨s.host, s.memory.store⟩) hsettled)).mono
    (fun k' t ht => ?_) fun fault t ht => ?_
  · have hpass : ({ s.memory with store := t.memory } : SharedStore).pass k k'
        = k'.held t.memory := by
      rw [hheld]
      exact pass_held k k' t.memory
    refine ⟨?_, ht.2.nears.imp_right fun hnear => ⟨⟨hnear.1, hpass⟩, hnear.2⟩⟩
    have hrest : k'.rest.outcome t = k.rest.outcome ⟨s.host, s.memory.store⟩ := by
      unfold outcome
      rw [ht.2.rest]
    simp only [outcome_restAlone, SharedStore.pass, hrest]
  · obtain ⟨hsection, hturn, hfails⟩ := ht
    have hfree : ({ s.memory with store := t.memory } : SharedStore) = { store := t.memory } := by
      rw [hheld]
      simp [held, hsection, hturn]
    rw [outcome_restAlone, outcome_error_iff.mpr hfails, hfree]

end PageStage

/-- A client that no other one disturbs makes its call to the end, and the call answers and leaves
the store as its procedure does. -/
theorem PageStore.call_run_alone {w : Crowd SharedStore PageStage} {client : Nat}
    (hfree : w.session.memory = { store := w.session.memory.store })
    (hfiled : w.session.memory.store.Filed) (call : PageCall) :
    ∃ trace u, sharing.Run (sharing.call w client call) trace u ∧ (∀ e ∈ trace, e.client = client)
      ∧ u.stage client = .ended (call.run.outcome ⟨w.session.host, w.session.memory.store⟩).1
      ∧ u.session = ⟨(call.run.outcome ⟨w.session.host, w.session.memory.store⟩).2.host,
          { store := (call.run.outcome ⟨w.session.host, w.session.memory.store⟩).2.memory }⟩ := by
  have halone := @Protocol.exists_run_alone_of _ _ _ sharing _ _ _ _ PageStage.restAlone .ended
    (fun k s => k.Settled s.memory.store ∧ s.memory = k.held s.memory.store) PageStage.distance
    (fun answer s hs => ?_) (fun _ => rfl) (fun k s hs => PageStage.advance_goes hs.1 hs.2)
    (sharing.call w client call) client ?_
  · have hstage : (sharing.call w client call).stage client = PageStage.start call :=
      w.stage_put_self ..
    rw [hstage, PageStage.outcome_restAlone, PageStage.rest_start] at halone
    exact halone
  · obtain ⟨-, hheld⟩ := hs
    rw [PageStage.outcome_restAlone]
    cases answer with
    | ok answer =>
      exact congrArg (fun m => (Except.ok answer, (⟨s.host, m⟩ : Session SharedStore))) hheld.symm
    | error fault =>
      exact congrArg (fun m => (Except.error fault, (⟨s.host, m⟩ : Session SharedStore))) hheld.symm
  · have hstage : (sharing.call w client call).stage client = PageStage.start call :=
      w.stage_put_self ..
    rw [hstage]
    cases call <;> exact ⟨{ filed := hfiled }, hfree⟩

end PagedQueue
