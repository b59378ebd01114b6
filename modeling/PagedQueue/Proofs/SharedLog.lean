import PagedQueue.Proofs.ClientRuns
import PagedQueue.Proofs.Keeping
import PagedQueue.Proofs.LogSteps

/-!
# Clients that share a payload log

However the appends of several clients follow one another, none is given a place in which another
one lies, and what is appended stays where it is (`appended_payloads_stay`). A place that was given
out lies before where the next one goes, and a log is only recovered while no append is under way:
then every payload that was appended has its pages, and the log goes on behind them
(`PayloadLog.Kept`).
-/

namespace PagedQueue

open Procedure
open PageStore (Nowhere)

/-- No byte of one payload lies where one of the other lies. -/
def Beside (payload : List UInt8) (offset : Nat) (other : List UInt8) (place : Nat) : Prop :=
  ∀ o, ¬ (InRange offset payload.length o ∧ InRange place other.length o)

theorem Beside.symm {payload other : List UInt8} {offset place : Nat}
    (h : Beside payload offset other place) : Beside other place payload offset :=
  fun o hand => h o hand.symm

theorem beside_of_le {payload other : List UInt8} {offset place : Nat}
    (h : offset + payload.length ≤ place) : Beside payload offset other place :=
  fun _ hand => Nat.not_lt_of_le (Nat.le_trans h hand.2.1) hand.1.2

/-- A payload was appended. -/
def Event.Appends (e : Event LogStage) (payload : List UInt8) (offset : Nat) : Prop :=
  (∃ written, e.before = .write payload offset written)
    ∧ e.after = .ended (.ok (.appended payload offset))

/-- Whether a stage neither writes nor says that a payload was appended. -/
def LogStage.isQuiet : LogStage → Bool
  | .write _ _ _ | .ended (.ok (.appended _ _)) => false
  | _ => true

namespace PayloadLog

variable {directory : Path} {pageSize : Nat} {s t : Session PayloadLog}
    {touched changed : Nat → Prop}
  {payload other : List UInt8} {offset place written : Nat}
  {w v u : Crowd PayloadLog LogStage} {trace before after : List (Event LogStage)}
  {e : Event LogStage}

/-! ## Payloads in their places -/

/-- A payload has a place before where the next one goes, and its first bytes are written there. -/
structure Has (directory : Path) (pageSize : Nat) (payload : List UInt8) (offset written : Nat)
    (s : Session PayloadLog) : Prop where
  le_cursor : offset + payload.length ≤ s.memory.cursor
  le_max : offset + payload.length ≤ maxCursor
  written_le : written ≤ payload.length
  bytes : (s.host.disk.space directory pageSize).read offset written = payload.take written
  pages : s.host.disk.HasPages directory pageSize offset written

namespace Has

/-- It stays there while bytes are written beside it. -/
theorem alters (h : Has directory pageSize payload offset written s)
    (ha : Alters directory pageSize changed s t) (hcursor : s.memory.cursor ≤ t.memory.cursor)
    (hbeside : ∀ o, InRange offset payload.length o → ¬ changed o) :
    Has directory pageSize payload offset written t where
  le_cursor := Nat.le_trans h.le_cursor hcursor
  le_max := h.le_max
  written_le := h.written_le
  bytes := by
    have hle := h.written_le
    rw [ByteSpace.read_congr fun o hle' hlt => ha.bytes o (hbeside o ⟨hle', by omega⟩)]
    exact h.bytes
  pages o ho := ha.hasPage _ (h.pages o ho)

/-- The next bytes are written behind the ones before. -/
theorem write (h : Has directory pageSize payload offset written s) {count : Nat}
    (hcount : count ≤ (payload.drop written).length)
    (ha : Alters directory pageSize (InRange (offset + written) count) s t)
    (hspace : t.host.disk.space directory pageSize
      = (s.host.disk.space directory pageSize).write (offset + written)
        ((payload.drop written).take count))
    (hpages : t.host.disk.HasPages directory pageSize (offset + written) count)
    (hcursor : t.memory.cursor = s.memory.cursor) :
    Has directory pageSize payload offset (written + count) t where
  le_cursor := hcursor.symm ▸ h.le_cursor
  le_max := h.le_max
  written_le := by
    have hle := h.written_le
    rw [List.length_drop] at hcount
    omega
  bytes := by
    have htake : ((payload.drop written).take count).length = count := by
      rw [List.length_take, Nat.min_eq_left hcount]
    have hnew := ByteSpace.read_write (s.host.disk.space directory pageSize) (offset + written)
      ((payload.drop written).take count)
    rw [htake] at hnew
    rw [hspace, ByteSpace.read_add, ByteSpace.read_write_of_disjoint (.inl (Nat.le_refl _)),
      h.bytes, hnew, ← List.take_add]
  pages o ho := by
    by_cases hold : o < offset + written
    · exact ha.hasPage _ (h.pages o ⟨ho.1, hold⟩)
    · have hlt := ho.2
      exact hpages o ⟨Nat.le_of_not_lt hold, by omega⟩

/-- The pages reach to the end of a payload that is written. -/
theorem le_reach (h : Has directory pageSize payload offset payload.length s) (hne : payload ≠ [])
    (hmounted : Mounted directory pageSize s) :
    offset + payload.length ≤ s.host.disk.reach directory pageSize := by
  have hpos : 0 < pageSize := hmounted.pageSize_eq ▸ s.memory.file.store.pageSize_pos
  have hlength := List.length_pos_iff.mpr hne
  have hmax := h.le_max
  rw [maxCursor] at hmax
  have hmem := (h.pages (offset + payload.length - 1) ⟨by omega, by omega⟩).mem_pageNumbers
    (hmounted.ways directory List.prefix_rfl) (Disk.div_le_maxIndex (by omega))
  have hdiv := Nat.lt_mul_div_succ (offset + payload.length - 1) hpos
  rw [Nat.mul_comm] at hdiv
  have hreach := Disk.le_reach_of_mem hmem pageSize
  omega

/-- A payload that is written is read, unless a page of it is refused. -/
theorem read_payload (h : Has directory pageSize payload offset payload.length s)
    (hmounted : Mounted directory pageSize s) :
    (read offset payload.length).Leads s (fun bytes _ => bytes = payload) fun _ _ =>
      ∃ o, InRange offset payload.length o
        ∧ Disk.pagePath directory (o / pageSize) ∈ s.host.disk.refused := by
  refine (read_leads hmounted offset payload.length).mono ?_ ?_
  · intro _ _ ht
    rw [ht.1, h.bytes, List.take_length]
  · intro _ _ hfailed
    obtain ⟨-, o, ho, hunmappable⟩ := hfailed
    refine ⟨o, ho, Classical.byContradiction fun hnot => hunmappable ?_⟩
    exact ⟨hnot, .inl (h.pages o ho)⟩

end Has

/-! ## What clients keep -/

/-- Every payload that was appended, and all that is written of one that is on the way, is in its
place, and no two of them share a byte. -/
structure Kept (directory : Path) (pageSize : Nat) (trace : List (Event LogStage))
    (w : Crowd PayloadLog LogStage) : Prop where
  mounted : Mounted directory pageSize w.session
  flying : ∀ {client payload offset written}, w.stage client = .write payload offset written →
    Has directory pageSize payload offset written w.session
  landed : ∀ {e payload offset}, e ∈ trace → e.Appends payload offset → payload ≠ [] →
    Has directory pageSize payload offset payload.length w.session
  apart : ∀ {client client' payload offset written other place written'},
    w.stage client = .write payload offset written → w.stage client' = .write other place written' →
    client ≠ client' → Beside payload offset other place
  beside : ∀ {client payload offset written e other place},
    w.stage client = .write payload offset written → e ∈ trace → e.Appends other place →
    Beside payload offset other place
  distinct : trace.Pairwise fun e e' => ∀ payload offset other place,
    e.Appends payload offset → e'.Appends other place → Beside payload offset other place

namespace Kept

/-- Before any call there is nothing to keep. -/
theorem unused (h : Mounted directory pageSize s) : Kept directory pageSize [] (unused s) where
  mounted := h
  flying := nofun
  landed := nofun
  apart := nofun
  beside := nofun
  distinct := .nil

/-- A step of a client keeps everything, if it writes only in the place of that client, and if a
place that is new lies behind all others. -/
theorem goOn (h : Kept directory pageSize trace w) {client : Nat} {k : LogStage}
    {t : Session PayloadLog} (ha : Alters directory pageSize changed w.session t)
    (hcursor : w.session.memory.cursor ≤ t.memory.cursor)
    (hchanged : ∀ o, changed o → ∃ payload offset written,
      w.stage client = .write payload offset written ∧ InRange offset payload.length o)
    (hflying : ∀ {payload offset written}, k = .write payload offset written →
      Has directory pageSize payload offset written t
        ∧ ((∃ written', w.stage client = .write payload offset written')
          ∨ w.session.memory.cursor ≤ offset))
    (hlanded : ∀ {payload offset}, k = .ended (.ok (.appended payload offset)) → payload ≠ [] →
      (∃ written, w.stage client = .write payload offset written) →
      Has directory pageSize payload offset payload.length t) :
    Kept directory pageSize (trace ++ [⟨client, w.stage client, k⟩]) (w.put client k t) := by
  have hself := w.stage_put_self client k t
  have hother {client' : Nat} (hne : client' ≠ client) := w.stage_put_of_ne hne k t
  -- a place that goes to the client lies beside one that another client had
  have hapart {client' : Nat} {payload other : List UInt8} {offset place written written' : Nat}
      (hne : client' ≠ client) (hk : k = .write payload offset written)
      (hstage : w.stage client' = .write other place written') :
        Beside payload offset other place := by
    rcases (hflying hk).2 with ⟨_, hold⟩ | hbehind
    · exact h.apart hold hstage hne.symm
    · exact (beside_of_le (Nat.le_trans (h.flying hstage).le_cursor hbehind)).symm
  refine {
    mounted := ha.mounted
    flying := fun {client' payload offset written} hstage => ?_
    landed := fun {e payload offset} he happends hne => ?_
    apart :=
      fun {client₁ client₂ payload offset written other place written'} hfirst hsecond hne => ?_
    beside := fun {client' payload offset written e other place} hstage he happends => ?_
    distinct := List.pairwise_append.mpr ⟨h.distinct, List.pairwise_singleton .., ?_⟩ }
  · by_cases hc : client' = client
    · subst hc
      exact (hflying (hself.symm.trans hstage)).1
    · rw [hother hc] at hstage
      refine (h.flying hstage).alters ha hcursor fun o ho hchange => ?_
      obtain ⟨_, _, _, hmine, hin⟩ := hchanged o hchange
      exact h.apart hstage hmine hc o ⟨ho, hin⟩
  · rcases List.mem_append.mp he with he | he
    · refine (h.landed he happends hne).alters ha hcursor fun o ho hchange => ?_
      obtain ⟨_, _, _, hmine, hin⟩ := hchanged o hchange
      exact h.beside hmine he happends o ⟨hin, ho⟩
    · obtain rfl := List.mem_singleton.mp he
      exact hlanded happends.2 hne happends.1
  · by_cases hc : client₁ = client
    · rw [hc, hself] at hfirst
      rw [hother (hc ▸ hne.symm)] at hsecond
      exact hapart (hc ▸ hne.symm) hfirst hsecond
    · rw [hother hc] at hfirst
      by_cases hc' : client₂ = client
      · rw [hc', hself] at hsecond
        exact (hapart hc hsecond hfirst).symm
      · rw [hother hc'] at hsecond
        exact h.apart hfirst hsecond hne
  · by_cases hc : client' = client
    · rw [hc, hself] at hstage
      rcases List.mem_append.mp he with he | he
      · rcases (hflying hstage).2 with ⟨_, hold⟩ | hbehind
        · exact h.beside hold he happends
        · intro o hand
          have hne : other ≠ [] := List.ne_nil_of_length_pos (Nat.pos_of_lt_add_right
            (Nat.lt_of_le_of_lt hand.2.1 hand.2.2))
          exact (beside_of_le (Nat.le_trans (h.landed he happends hne).le_cursor hbehind)).symm o
            hand
      · obtain rfl := List.mem_singleton.mp he
        exact absurd (hstage.symm.trans happends.2) nofun
    · rw [hother hc] at hstage
      rcases List.mem_append.mp he with he | he
      · exact h.beside hstage he happends
      · obtain rfl := List.mem_singleton.mp he
        obtain ⟨⟨_, hmine⟩, -⟩ := happends
        exact h.apart hstage hmine hc
  · intro e he e' he' payload offset other place happends happends'
    obtain rfl := List.mem_singleton.mp he'
    obtain ⟨⟨_, hmine⟩, -⟩ := happends'
    exact (h.beside hmine he happends).symm

/-- A step that writes no byte and gives out no place keeps everything. -/
theorem still (h : Kept directory pageSize trace w) {client : Nat} {k : LogStage}
    {t : Session PayloadLog} (ha : Alters directory pageSize Nowhere w.session t)
    (hcursor : t.memory.cursor = w.session.memory.cursor) (hquiet : k.isQuiet = true) :
    Kept directory pageSize (trace ++ [⟨client, w.stage client, k⟩]) (w.put client k t) := by
  refine h.goOn ha hcursor.ge (fun _ => False.elim) (fun hk => ?_) fun hk => ?_
  all_goals
    rw [hk] at hquiet
    cases hquiet

/-- What a client does next keeps everything. -/
theorem take (h : Kept directory pageSize trace w) (client : Nat) :
    (LogStage.advance (w.stage client)).Leads w.session
      (fun k t => t.memory.cursor ≤ maxCursor →
        Kept directory pageSize (trace ++ [⟨client, w.stage client, k⟩]) (w.put client k t))
      fun fault t => Kept directory pageSize
        (trace ++ [⟨client, w.stage client, .ended (.error fault)⟩])
        (w.put client (.ended (.error fault)) t) := by
  suffices hstage : ∀ k, w.stage client = k → (LogStage.advance k).Leads w.session
      (fun k t => t.memory.cursor ≤ maxCursor →
        Kept directory pageSize (trace ++ [⟨client, w.stage client, k⟩]) (w.put client k t))
      fun fault t => Kept directory pageSize
        (trace ++ [⟨client, w.stage client, .ended (.error fault)⟩])
        (w.put client (.ended (.error fault)) t) from hstage _ rfl
  intro k hk
  cases k with
  | reserve payload =>
    simp only [LogStage.advance, PayloadLog.reserve, leads_bind, leads_memory, leads_update,
      leads_pure]
    intro hmax
    refine h.goOn (h.mounted.still_of_store rfl) (Nat.le_add_right _ _)
      (fun _ => False.elim) ?_ fun heq => by cases heq
    intro payload' offset written heq
    cases heq
    exact ⟨⟨Nat.le_refl _, hmax, Nat.zero_le _, rfl,
      fun o ho => absurd (Nat.lt_of_le_of_lt ho.1 ho.2) (Nat.lt_irrefl _)⟩, .inr (Nat.le_refl _)⟩
  | write payload offset written =>
    have hmine := h.flying hk
    simp only [LogStage.advance, leads_ite, leads_bind, leads_pure]
    split
    next hlt =>
      have hbytes : payload.drop written ≠ [] :=
        List.ne_nil_of_length_pos (by rw [List.length_drop]; exact Nat.sub_pos_of_lt hlt)
      refine (writeFirst_leads h.mounted (offset + written) hbytes).mono ?_ ?_
      · intro count t ht _
        obtain ⟨hcount, ha, hspace, hpages, hcursor⟩ := ht
        refine h.goOn ha hcursor.ge ?_ ?_ fun heq => by cases heq
        · intro o ho
          have hlt' := ho.2
          rw [List.length_drop] at hcount
          exact ⟨payload, offset, written, hk, Nat.le_trans (Nat.le_add_right _ _) ho.1, by omega⟩
        · intro payload' offset' written' heq
          cases heq
          exact ⟨hmine.write hcount ha hspace hpages hcursor, .inl ⟨written, hk⟩⟩
      · intro fault t ht
        exact h.still ht.1 ht.2 rfl
    next hle =>
      obtain rfl : written = payload.length :=
        Nat.le_antisymm hmine.written_le (Nat.le_of_not_lt hle)
      unfold onFile PagedFile.markWritten
      simp only [leads_within, leads_update]
      intro _
      refine h.goOn (h.mounted.still_of_store rfl) (Nat.le_refl _) (fun _ => False.elim)
        (fun heq => by cases heq) ?_
      intro payload' offset' heq hne _
      cases heq
      exact hmine.alters (h.mounted.still_of_store rfl) (Nat.le_refl _) fun _ _ => id
  | read offset length =>
    simp only [LogStage.advance, leads_bind, leads_pure]
    exact (read_leads h.mounted offset length).mono (fun _ _ ht _ => h.still ht.2.1 ht.2.2 rfl)
      fun _ _ ht => h.still ht.1.1 ht.1.2 rfl
  | flush =>
    simp only [LogStage.advance, leads_bind, leads_pure]
    exact (flush_ensures h.mounted).leads.mono (fun _ _ ht _ => h.still ht.1 ht.2 rfl)
      fun _ _ => False.elim
  | close =>
    simp only [LogStage.advance, leads_bind, leads_pure]
    exact (close_ensures h.mounted).leads.mono (fun _ _ ht _ => h.still ht.1 ht.2 rfl)
      fun _ _ => False.elim
  | ended answer =>
    intro _
    refine h.goOn (h.mounted.still_of_store rfl) (Nat.le_refl _) (fun _ => False.elim)
      (fun heq => by cases heq) ?_
    intro payload' offset' _ _ hback
    obtain ⟨written, hwrite⟩ := hback
    rw [hk] at hwrite
    cases hwrite

/-- A step of any client keeps everything. -/
theorem step (h : Kept directory pageSize trace w) (hstep : sharing.Step w e u)
    (hmax : u.session.memory.cursor ≤ maxCursor) : Kept directory pageSize (trace ++ [e]) u := by
  refine hstep.elim (fun e u => u.session.memory.cursor ≤ maxCursor →
    Kept directory pageSize (trace ++ [e]) u) ?_ ?_ hmax
  · intro client call _ _
    exact h.still (h.mounted.still_of_store rfl) rfl (by cases call <;> rfl)
  · intro client
    exact (h.take client).mono (fun _ _ => id) fun _ _ ht _ => ht

/-- A log that goes on behind all its pages while no call is under way keeps everything. -/
theorem resume (h : Kept directory pageSize trace w)
    (hfree : ∀ client, sharing.isFree (w.stage client) = true) {t : Session PayloadLog}
    (ha : Alters directory pageSize Nowhere w.session t)
    (hcursor : t.memory.cursor = w.session.host.disk.reach directory pageSize) :
    Kept directory pageSize trace ⟨t, w.stage⟩ := by
  have hnone {client : Nat} {payload : List UInt8} {offset written : Nat}
      (hstage : w.stage client = .write payload offset written) : False := by
    have hclient := hfree client
    rw [hstage] at hclient
    cases hclient
  exact {
    mounted := ha.mounted
    flying := fun hstage => (hnone hstage).elim
    landed := fun he happends hne => by
      have hold := h.landed he happends hne
      have hbytes := ha.bytes
      exact {
        le_cursor := hcursor.symm ▸ hold.le_reach hne h.mounted
        le_max := hold.le_max
        written_le := hold.written_le
        bytes := by
          rw [ByteSpace.read_congr fun o _ _ => ha.bytes o id]
          exact hold.bytes
        pages := fun o ho => ha.hasPage _ (hold.pages o ho) }
    apart := fun hstage => (hnone hstage).elim
    beside := fun hstage => (hnone hstage).elim
    distinct := h.distinct }

end Kept

/-- Clients that go on keep everything. -/
theorem Journey.kept (h : Journey v after u) (hv : Kept directory pageSize before v) :
    Kept directory pageSize (before ++ after) u := by
  induction h with
  | rest => rwa [List.append_nil]
  | step _ hstep hmax ih =>
    rw [← List.append_assoc]
    exact ih.step hstep hmax
  | refuse _ hstage hlt hrun ih =>
    rw [← List.append_assoc]
    obtain ⟨ha, hcursor⟩ := (refuse_leads ih.mounted _ _).of_error hrun
    exact ih.still ha hcursor rfl
  | recover _ hfree hrun ih =>
    obtain ⟨ha, hlength, hcursor⟩ := Leads.of_ok (recover_ensures ih.mounted) hrun
    exact ih.resume hfree ha (hcursor.trans hlength)
  | reopen _ hfree hrun ih =>
    obtain ⟨ha, hlength, hcursor⟩ := Leads.of_ok (reopen_ensures ih.mounted _) hrun
    exact ih.resume hfree ha (hcursor.trans hlength)

/-- A client that writes has the place it had before, or has just been given where the next one
goes. -/
theorem place_of_advance (k : LogStage) (s : Session PayloadLog) :
    (LogStage.advance k).Leads s
      (fun k' _ => ∀ payload offset written, k' = .write payload offset written →
        (∃ written', k = .write payload offset written') ∨ offset = s.memory.cursor)
      fun _ _ => True := by
  cases k with
  | reserve payload =>
    simp only [LogStage.advance, PayloadLog.reserve, leads_bind, leads_memory, leads_update,
      leads_pure]
    intro payload' offset written heq
    cases heq
    exact .inr rfl
  | write payload offset written =>
    simp only [LogStage.advance, leads_ite, leads_bind, leads_pure]
    split
    · refine (keeps_true _ s trivial).mono (fun count _ _ payload' offset' written' heq => ?_)
        fun _ _ => id
      cases heq
      exact .inl ⟨written, rfl⟩
    · refine (keeps_true _ s trivial).mono (fun _ _ _ _ _ _ heq => ?_) fun _ _ => id
      cases heq
  | read | flush | close =>
    simp only [LogStage.advance, leads_bind, leads_pure]
    refine (keeps_true _ s trivial).mono (fun _ _ _ _ _ _ heq => ?_) fun _ _ => id
    cases heq
  | ended answer =>
    intro _ _ _ heq
    cases heq

/-- What a client writes lies behind an offset. -/
def Behind (bound client : Nat) (w : Crowd PayloadLog LogStage) : Prop :=
  ∀ payload offset written, w.stage client = .write payload offset written → bound ≤ offset

theorem Behind.put {bound client client' : Nat} (h : Behind bound client w) {k : LogStage}
    {t : Session PayloadLog} (hk : ∀ payload offset written, k = .write payload offset written →
      (∃ written', w.stage client' = .write payload offset written') ∨ bound ≤ offset) :
    Behind bound client (w.put client' k t) := by
  intro payload offset written hstage
  by_cases hc : client = client'
  · subst hc
    rw [Crowd.stage_put_self] at hstage
    rcases hk payload offset written hstage with ⟨written', hold⟩ | hbehind
    · exact h payload offset written' hold
    · exact hbehind
  · rw [Crowd.stage_put_of_ne _ hc] at hstage
    exact h payload offset written hstage

theorem Behind.step {bound client : Nat} (h : Behind bound client w)
    (hcursor : bound ≤ w.session.memory.cursor) (hstep : sharing.Step w e u) :
    Behind bound client u := by
  refine hstep.elim (fun _ u => Behind bound client u) ?_ ?_
  · intro client' call _
    exact h.put fun _ _ _ heq => by cases call <;> cases heq
  · intro client'
    refine (place_of_advance (w.stage client') w.session).mono ?_ ?_
    · intro k t hk
      exact h.put fun payload offset written heq =>
        (hk payload offset written heq).imp_right fun hplace =>
        Nat.le_trans hcursor (Nat.le_of_eq hplace.symm)
    · intro _ _ _
      exact h.put nofun

/-- What a client appends is what it was writing. -/
theorem Behind.of_appends {bound : Nat} (h : Behind bound e.client w)
    (hbefore : e.before = w.stage e.client) (happends : e.Appends payload offset) :
    bound ≤ offset := by
  obtain ⟨⟨written, hwrite⟩, -⟩ := happends
  exact h payload offset written (hbefore.symm.trans hwrite)

/-- What a client is given later lies behind what was appended before. -/
theorem Journey.behind (h : Journey v after u) (hv : Kept directory pageSize before v)
    (he : e ∈ before) (happends : e.Appends payload offset) (hne : payload ≠ []) {client : Nat}
    (hfree : sharing.isFree (v.stage client) = true) :
    Behind (offset + payload.length) client u
    ∧ ∀ f ∈ after, f.client = client → ∀ other place, f.Appends other place →
      offset + payload.length ≤ place := by
  -- the events on the way bear the bound at the crowd before them
  have hevents {trace : List (Event LogStage)} {w : Crowd PayloadLog LogStage} {e' : Event LogStage}
      (hold : ∀ f ∈ trace, f.client = client → ∀ other place, f.Appends other place →
        offset + payload.length ≤ place)
      (hw : Behind (offset + payload.length) client w) (hbefore : e'.before = w.stage e'.client) :
      ∀ f ∈ trace ++ [e'], f.client = client → ∀ other place, f.Appends other place →
        offset + payload.length ≤ place := by
    intro f hf hc other place hf'
    rcases List.mem_append.mp hf with hf | hf
    · exact hold f hf hc other place hf'
    · obtain rfl := List.mem_singleton.mp hf
      exact Behind.of_appends (hc.symm ▸ hw) hbefore hf'
  induction h with
  | rest =>
    refine ⟨fun other place written hstage => ?_, fun f hf => absurd hf List.not_mem_nil⟩
    rw [hstage] at hfree
    cases hfree
  | step hrun hstep _ ih =>
    obtain ⟨hplace, hold⟩ := ih
    have hcursor := ((hrun.kept hv).landed (List.mem_append_left _ he) happends hne).le_cursor
    exact ⟨hplace.step hcursor hstep, hevents hold hplace (by cases hstep <;> rfl)⟩
  | refuse _ _ _ _ ih =>
    obtain ⟨hplace, hold⟩ := ih
    exact ⟨hplace.put nofun, hevents hold hplace rfl⟩
  | recover _ _ _ ih => exact ih
  | reopen _ _ _ ih => exact ih

/-! ## Journeys that are runs -/

/-- Where the next payload goes never moves back. -/
theorem keeps_cursor (bound : Nat) (k : LogStage) :
    Keeps (fun log => bound ≤ log.cursor) (LogStage.advance k) := by
  have honFile {α : Type} (p : Procedure PagedFile α) : Keeps
      (fun log => bound ≤ log.cursor) (onFile p) :=
    .within fun _ hbound => ⟨_, keeps_true p, trivial, fun _ _ => hbound⟩
  cases k with
  | reserve payload =>
    intro s hs
    simp only [LogStage.advance, PayloadLog.reserve, leads_bind, leads_memory, leads_update,
      leads_pure]
    exact Nat.le_trans hs (Nat.le_add_right _ _)
  | write payload offset written =>
    exact .ite ((honFile _).bind fun _ => keeps_pure _) ((honFile _).bind fun _ => keeps_pure _)
  | read | flush | close => exact (honFile _).bind fun _ => keeps_pure _
  | ended answer => exact keeps_pure _

/-- Where no place ends beyond the last offset, what clients do goes on with a journey. -/
theorem Journey.run (hv : Journey w before v) (h : sharing.Run v after u)
    (hmax : u.session.memory.cursor ≤ maxCursor) : Journey w (before ++ after) u := by
  induction h with
  | rest => rwa [List.append_nil]
  | step _ hstep ih =>
    rw [← List.append_assoc]
    refine .step (ih (Nat.le_trans ?_ hmax)) hstep hmax
    refine hstep.elim (fun _ u => _ ≤ u.session.memory.cursor) ?_ ?_
    · intro _ _ _
      exact Nat.le_refl _
    · intro client
      exact keeps_cursor _ _ _ (Nat.le_refl _)

end PayloadLog

/-! ## What was appended -/

open PayloadLog in
/-- Clients share a payload log that was started from nothing in a directory. However their appends,
with faults or without, reads, flushes, closings and recoveries follow one another, no two payloads
that were appended share a byte. What is appended by a call that is made later lies behind all that
was appended before. Every payload is read from its place ever after, as long as no page of it is
refused, and a log that is recovered or opened anew goes on behind it. -/
theorem appended_payloads_stay {σ : Type} {s opened : Session σ} {directory : Path} {pageSize : Nat}
    {lifetime : UInt64} {log : PayloadLog} {t : Session PayloadLog}
    {v u : Crowd PayloadLog LogStage} {before after : List (Event LogStage)}
    (hsound : s.host.disk.Sound)
    (hopen : (openIn directory pageSize lifetime).outcome s = (.ok log, opened))
    (hstart : startEmpty.outcome ⟨opened.host, log⟩ = (.ok (), t))
    (hbefore : Journey (unused t) before v) (hafter : Journey v after u) :
    ((before ++ after).Pairwise fun e f => ∀ payload offset other place,
      e.Appends payload offset → f.Appends other place → Beside payload offset other place)
    ∧ (∀ e ∈ before, ∀ payload offset, e.Appends payload offset → payload ≠ [] →
      ∀ f ∈ after, sharing.isFree (v.stage f.client) = true → ∀ other place, f.Appends other place →
        offset + payload.length ≤ place)
    ∧ ∀ e ∈ before ++ after, ∀ payload offset, e.Appends payload offset → payload ≠ [] →
      (read offset payload.length).Leads u.session (fun bytes _ => bytes = payload) (fun _ _ =>
        ∃ o, InRange offset payload.length o
          ∧ Disk.pagePath directory (o / pageSize) ∈ u.session.host.disk.refused)
      ∧ recover.Ensures u.session (fun length t => t.memory.cursor = length
        ∧ offset + payload.length ≤ length)
      ∧ ∀ lifetime', (reopen lifetime').Ensures u.session fun length t => t.memory.cursor = length
        ∧ offset + payload.length ≤ length := by
  have hmounted := Leads.of_ok (startEmpty_ensures
    ((openIn_leads directory pageSize lifetime hsound).of_ok hopen)) hstart
  have hv := hbefore.kept (.unused hmounted)
  have hu := hafter.kept hv
  rw [List.nil_append] at hv hu
  refine ⟨hu.distinct, ?_, ?_⟩
  · intro e he payload offset happends hne f hf hfree other place hother
    exact (hafter.behind hv he happends hne hfree).2 f hf rfl other place hother
  · intro e he payload offset happends hne
    have hhas := hu.landed he happends hne
    have hreach := hhas.le_reach hne hu.mounted
    refine ⟨hhas.read_payload hu.mounted, (recover_ensures hu.mounted).mono ?_, fun lifetime' =>
      (reopen_ensures hu.mounted lifetime').mono ?_⟩
    all_goals
      intro _ _ ht
      obtain ⟨-, rfl, hcursor⟩ := ht
      exact ⟨hcursor, hreach⟩

/-! Two clients append at once in pages of four bytes, one of them behind a whole page and the other
one across it, and one of them once more after the log was opened anew. -/

namespace LogRun

deriving instance DecidableEq for LogStage

deriving instance DecidableEq for Event

/-- What comes of opening a log where nothing is. -/
def opening : Except Fault PayloadLog × Session Unit :=
  (PayloadLog.openIn ["log"] 4 5).outcome ⟨⟨{}, ⟨fun _ => 0, 0⟩, []⟩, ()⟩

/-- A log that was started from nothing. -/
def begun (log : PayloadLog) : Session PayloadLog :=
  (PayloadLog.startEmpty.outcome ⟨opening.2.host, log⟩).2

/-- Two clients take their places and write, one between two steps of the other. -/
def atOnce (log : PayloadLog) : List (Event LogStage) × Crowd PayloadLog LogStage :=
  PayloadLog.sharing.perform (PayloadLog.unused (begun log))
    ([0, 0, 1, 1, 1, 0, 1, 1, 0].map fun client =>
      (client, .append (if client = 0 then [1, 2, 3] else [4, 5])))

/-- The log is opened anew. -/
def reopened (log : PayloadLog) : Session PayloadLog :=
  ((PayloadLog.reopen 5).outcome (atOnce log).2.session).2

/-- One of the clients appends once more. -/
def afterwards (log : PayloadLog) : List (Event LogStage) × Crowd PayloadLog LogStage :=
  PayloadLog.sharing.perform ⟨reopened log, (atOnce log).2.stage⟩
  (List.replicate 4 (0, .append [6]))

/-- All of it goes well. -/
def GoesWell (log : PayloadLog) : Prop :=
  (PayloadLog.startEmpty.outcome ⟨opening.2.host, log⟩).1 = .ok ()
    ∧ ((PayloadLog.reopen 5).outcome (atOnce log).2.session).1 = .ok 8
    ∧ ((atOnce log).2.session.memory.cursor ≤ PayloadLog.maxCursor
      ∧ (afterwards log).2.session.memory.cursor ≤ PayloadLog.maxCursor)
    ∧ (PayloadLog.sharing.isFree ((atOnce log).2.stage 0) = true
      ∧ PayloadLog.sharing.isFree ((atOnce log).2.stage 1) = true)
    ∧ ⟨0, .write [1, 2, 3] 0 3, .ended (.ok (.appended [1, 2, 3] 0))⟩ ∈ (atOnce log).1
    ∧ ⟨1, .write [4, 5] 3 2, .ended (.ok (.appended [4, 5] 3))⟩ ∈ (atOnce log).1
    ∧ ⟨0, .write [6] 8 1, .ended (.ok (.appended [6] 8))⟩ ∈ (afterwards log).1
    ∧ (afterwards log).2.session.host.disk.refused = []

instance (log : PayloadLog) : Decidable (GoesWell log) := by
  unfold GoesWell
  infer_instance

theorem exists_goesWell : ∃ log, opening.1 = .ok log ∧ GoesWell log := by
  have hdecide : (opening.1.toOption).any (fun log => decide (GoesWell log)) = true := by
    decide +kernel
  obtain ⟨log, hlog, hwell⟩ := exists_ok_of_any hdecide
  exact ⟨log, hlog, of_decide_eq_true hwell⟩

end LogRun

open PayloadLog LogRun in
/-- All three payloads are read from their places in the end, and the third one lies behind the
others. -/
theorem appended_payloads_stay_reopened : ∃ log, opening.1 = .ok log
    ∧ (read 0 3).Ensures (afterwards log).2.session (fun bytes _ => bytes = [1, 2, 3])
    ∧ (read 3 2).Ensures (afterwards log).2.session (fun bytes _ => bytes = [4, 5])
    ∧ (read 8 1).Ensures (afterwards log).2.session (fun bytes _ => bytes = [6])
    ∧ 3 + [4, 5].length ≤ 8 := by
  obtain ⟨log, hopen, hstart, hreopen, ⟨hmax, hmax'⟩, ⟨hfree, hfree'⟩, hfirst, hsecond, hthird,
    hcalm⟩ :=
    exists_goesWell
  have hrun : sharing.Run (unused (begun log)) (atOnce log).1 (atOnce log).2 :=
    Protocol.run_perform _ _ _
  have hrun' : sharing.Run ⟨reopened log, (atOnce log).2.stage⟩ (afterwards log).1
      (afterwards log).2 :=
    Protocol.run_perform _ _ _
  have hclients (client : Nat) : sharing.isFree ((atOnce log).2.stage client) = true := by
    by_cases hzero : client = 0
    · exact hzero ▸ hfree
    by_cases hone : client = 1
    · exact hone ▸ hfree'
    have hsame : (atOnce log).2.stage client = (unused (begun log)).stage client :=
      Protocol.stage_perform_of_forall_ne (by simp [hzero, hone])
    rw [hsame]
    rfl
  obtain ⟨-, hbehind, hstays⟩ := appended_payloads_stay (s := ⟨⟨{}, ⟨fun _ => 0, 0⟩, []⟩, ()⟩)
    (Disk.fresh_new ["log"]).sound (Prod.ext hopen rfl) (Prod.ext hstart rfl)
    (Journey.rest.run hrun hmax)
    ((Journey.reopen .rest hclients (Prod.ext hreopen rfl)).run hrun' hmax')
  have hheard {touched : Nat → Prop} (fault : Fault) (t : Session PayloadLog) :
      ¬ ∃ o, touched o
      ∧ Disk.pagePath ["log"] (o / 4) ∈ (afterwards log).2.session.host.disk.refused := by
    simp [hcalm]
  refine ⟨log, hopen, ?_, ?_, ?_, ?_⟩
  · exact (hstays _ (List.mem_append_left _ hfirst) [1, 2, 3] 0 ⟨⟨3, rfl⟩, rfl⟩ nofun).1.ensures
      hheard
  · exact (hstays _ (List.mem_append_left _ hsecond) [4, 5] 3 ⟨⟨2, rfl⟩, rfl⟩ nofun).1.ensures
      hheard
  · exact (hstays _ (List.mem_append_right _ hthird) [6] 8 ⟨⟨1, rfl⟩, rfl⟩ nofun).1.ensures hheard
  · exact hbehind _ hsecond [4, 5] 3 ⟨⟨2, rfl⟩, rfl⟩ nofun _ hthird (hclients 0) [6] 8
      ⟨⟨1, rfl⟩, rfl⟩

end PagedQueue
