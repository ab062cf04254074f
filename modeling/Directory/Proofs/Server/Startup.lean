import Directory.Proofs.Server.Move
import Directory.Proofs.Settings

/-!
# Options that pass the check and that no session can run with

`Options.check` turns a capacity of zero away and bounds it no further (`Options.check_eq_ok_iff`),
but an outbox bounds its capacity from above as well (`Outbox.isSome_create?`). So of the options
that pass, those with a larger capacity start no session, and a document can ask for them: the
numbers of a document reach further than `Outbox.largestCapacity`.

`Server.Staffed` is what this comes to while a server runs: all options in use passed the check, and
a connection is broken for a capacity that is too large and for nothing else.
-/

namespace Directory

/-! ## What a session needs -/

theorem Outbox.isSome_create? {α : Type} (n : Nat) :
    (create? n : Option (Outbox α)).isSome = true ↔ 1 ≤ n ∧ n ≤ largestCapacity := by
  rw [create?, Option.isSome_ite']
  omega

theorem Session.isSome_start? (o : Options) (info : SessionInfo) (stopping : Bool) :
    (start? o info stopping).isSome = true ↔
      1 ≤ o.queueCapacity ∧ o.queueCapacity ≤ Outbox.largestCapacity := by
  rw [← Outbox.isSome_create?, start?]
  cases Outbox.create? o.queueCapacity <;> rfl

namespace Options

/-! ## What the check turns away -/

theorem check_eq_ok_iff (o : Options) : o.check = .ok () ↔
    1 ≤ o.queueCapacity ∧ 1 ≤ o.maxMessageSize ∧ o.backoffMin ≠ Span.zero ∧
      o.backoffMin.nanos ≤ o.backoffMax.nanos := by
  unfold check
  split
  · simp only [reduceCtorEq, false_iff]
    omega
  · split
    · simp only [reduceCtorEq, false_iff]
      omega
    · split
      · rename_i hbackoff
        simp only [reduceCtorEq, false_iff]
        rintro ⟨-, -, hmin, hle⟩
        rcases hbackoff with hzero | hlt
        · exact hmin hzero
        · omega
      · rename_i hcapacity hsize hbackoff
        rw [not_or] at hbackoff
        exact ⟨fun _ => ⟨by omega, by omega, hbackoff.1, by omega⟩, fun _ => rfl⟩

inductive Setting where
  | readTimeout (limit : Span)
  | writeTimeout (limit : Span)
  | admission (rule : Admission)
  | startTls (acceptor : Acceptor)
  | queueCapacity (n : Nat)
  | maxMessageSize (n : Nat)
  | backoff (min max : Span)
  deriving DecidableEq, Repr

def set (o : Options) : Setting → Options
  | .readTimeout limit => o.withReadTimeout limit
  | .writeTimeout limit => o.withWriteTimeout limit
  | .admission rule => o.withAdmission rule
  | .startTls acceptor => o.withStartTls acceptor
  | .queueCapacity n => o.withQueueCapacity n
  | .maxMessageSize n => o.withMaxMessageSize n
  | .backoff min max => o.withBackoff min max

def built (settings : List Setting) : Options := settings.foldl set {}

def Setting.capacity? : Setting → Option Nat
  | .queueCapacity n => some n
  | _ => none

theorem queueCapacity_foldl_set (settings : List Setting) (o : Options) :
    (settings.foldl set o).queueCapacity =
      (settings.filterMap Setting.capacity?).getLastD o.queueCapacity := by
  induction settings generalizing o with
  | nil => rfl
  | cons setting settings ih =>
      rw [List.foldl_cons, ih]
      cases setting with
      | queueCapacity n =>
          have hsome : Setting.capacity? (.queueCapacity n) = some n := rfl
          rw [List.filterMap_cons_some hsome, List.getLastD_cons]
          rfl
      | _ =>
          rw [List.filterMap_cons_none rfl]
          rfl

end Options

/-! ## Options of a document -/

theorem Settings.eq_of_toOptions {s : Settings} {files : Acceptor.Files} {o : Options}
    (h : s.toOptions files = .ok o) :
    o.queueCapacity = s.queueCapacity ∧ o.maxMessageSize = s.maxMessageSize ∧
      o.backoffMin = Span.ofMillis 5 ∧ o.backoffMax = Span.ofSecs 1 0 := by
  unfold toOptions at h
  split at h
  · split at h
    · rename_i t _ _
      cases hload : Acceptor.load files t.certPath t.keyPath with
      | error cause =>
          rw [hload] at h
          cases h
      | ok acceptor =>
          rw [hload] at h
          cases h
          exact ⟨rfl, rfl, rfl, rfl⟩
    · cases h
      exact ⟨rfl, rfl, rfl, rfl⟩
  · cases h
    exact ⟨rfl, rfl, rfl, rfl⟩

theorem Settings.check_of_toOptions {s : Settings} {files : Acceptor.Files} {o : Options}
    (h : s.toOptions files = .ok o) :
    o.check = .ok () ↔ 1 ≤ s.queueCapacity ∧ 1 ≤ s.maxMessageSize := by
  obtain ⟨hcapacity, hsize, hmin, hmax⟩ := eq_of_toOptions h
  have hbackoff : Span.ofMillis 5 ≠ Span.zero ∧
      (Span.ofMillis 5).nanos ≤ (Span.ofSecs 1 0).nanos := by decide
  rw [Options.check_eq_ok_iff, hcapacity, hsize, hmin, hmax]
  exact ⟨fun h => ⟨h.1, h.2.1⟩, fun h => ⟨h.1, h.2, hbackoff⟩⟩

/-! ## Connections of a listener -/

namespace Connection

variable {o : Options} {c c' : Connection} {stopping : Bool}

/-- What can become of a connection of a listener whose options passed the check. -/
def Suits (o : Options) : Connection → Prop
  | .refused _ => True
  | .broken => Outbox.largestCapacity < o.queueCapacity
  | .greeting options _ => options = o
  | .serving _ => o.queueCapacity ≤ Outbox.largestCapacity

theorem suits_serve (h : o.check = .ok ()) (info : SessionInfo) (stopping : Bool) :
    (serve o info stopping).Suits o := by
  have hstart := Session.isSome_start? o info stopping
  have hpositive := ((Options.check_eq_ok_iff o).mp h).1
  unfold serve
  split
  · rename_i hnone
    rw [hnone] at hstart
    show Outbox.largestCapacity < o.queueCapacity
    simp only [Option.isSome_none, Bool.false_eq_true, false_iff] at hstart
    omega
  · rename_i session hsome
    rw [hsome] at hstart
    exact (hstart.mp rfl).2

theorem suits_accept (h : o.check = .ok ()) (info : SessionInfo) (stopping : Bool) :
    (accept o info stopping).Suits o := by
  unfold accept
  split
  · trivial
  · split
    · rfl
    · exact suits_serve h info stopping

theorem Suits.stop (h : c.Suits o) : c.stop.Suits o := by
  cases c <;> exact h

theorem Suits.step {a : Action} (hc : c.Suits o) (h : o.check = .ok ())
    (hs : c.step? stopping a = some c') : c'.Suits o := by
  cases c with
  | refused report => cases a <;> cases hs
  | broken => cases a <;> cases hs
  | greeting options info =>
      obtain rfl : options = o := hc
      cases a with
      | endGreeting error =>
          obtain ⟨-, hs⟩ := Option.ite_none_left_eq_some.mp hs
          cases error with
          | none =>
              cases hs
              exact suits_serve h info stopping
          | some cause =>
              cases hs
              trivial
      | abandonGreeting =>
          obtain ⟨-, hs⟩ := Option.ite_none_right_eq_some.mp hs
          cases hs
          trivial
      | session action => cases hs
  | serving session =>
      cases a with
      | endGreeting error => cases hs
      | abandonGreeting => cases hs
      | session action =>
          obtain ⟨next, -, rfl⟩ := Option.map_eq_some_iff.mp hs
          exact hc

end Connection

/-! ## Servers -/

namespace Server

variable {s s' : Server}

def offers (s : Server) : List Options := s.listeners.map (·.options)

theorem mem_offers {l : Listener} {i : Nat} (hl : s.listeners[i]? = some l) :
    l.options ∈ s.offers := List.mem_map_of_mem (List.mem_of_getElem? hl)

theorem offers_set {i : Nat} {l l' : Listener} (hl : s.listeners[i]? = some l)
    (hoptions : l'.options = l.options) :
    offers { s with listeners := s.listeners.set i l' } = s.offers := by
  obtain ⟨hi, rfl⟩ := List.getElem?_eq_some_iff.mp hl
  rw [offers, List.map_set, hoptions, ← List.map_set, List.set_getElem_self, offers]

def Starting.Passed (stage : Starting) : Prop := stage = .claiming ∨ stage.holds = true

/-- Past the check, a start goes on with options that passed it. -/
def Call.Checked : Call → Prop
  | .start l stage => stage.Passed → l.options.check = .ok ()
  | .stop _ => True

/-- All options in use passed the check, and the connections stand as they do for such options. -/
structure Staffed (s : Server) : Prop where
  passed : ∀ c ∈ s.calls, c.Checked
  checked : ∀ o ∈ s.offers, o.check = .ok ()
  suited : ∀ c ∈ s.connections, ∃ o ∈ s.offers, c.Suits o

namespace Staffed

theorem start : ({} : Server).Staffed where
  passed _ hmem := absurd hmem List.not_mem_nil
  checked _ hmem := absurd hmem List.not_mem_nil
  suited _ hmem := absurd hmem List.not_mem_nil

theorem setCalls (h : s.Staffed) {calls : List Call} {c : Call}
    (hcalls : ∀ c' ∈ calls, c' ∈ s.calls ∨ c' = c) (hc : c.Checked) :
    Staffed { s with calls } := by
  refine { h with passed := fun c' hmem => ?_ }
  rcases hcalls c' hmem with hold | rfl
  · exact h.passed c' hold
  · exact hc

theorem addCall (h : s.Staffed) {c : Call} (hc : c.Checked) :
    Staffed { s with calls := s.calls ++ [c] } :=
  h.setCalls (fun c' hmem => by simpa using hmem) hc

theorem setCall (h : s.Staffed) {i : Nat} {c : Call} (hc : c.Checked) :
    Staffed { s with calls := s.calls.set i c } :=
  h.setCalls (fun _ hmem => List.mem_or_eq_of_mem_set hmem) hc

theorem setListener (h : s.Staffed) {i : Nat} {l l' : Listener} (hl : s.listeners[i]? = some l)
    (hoptions : l'.options = l.options) : Staffed { s with listeners := s.listeners.set i l' } := by
  have hoffers := offers_set hl hoptions
  exact ⟨h.passed, hoffers ▸ h.checked, hoffers ▸ h.suited⟩

/-- A step of a start, as far as it changes more than the call. -/
theorem starts {l : Listener} {bound : Bool} {stage stage' : Starting} (h : s.Staffed)
    (hc : .start l stage ∈ s.calls) (hs : Starts s l bound stage stage' s') :
    s'.Staffed ∧ (stage'.Passed → l.options.check = .ok ()) := by
  cases hs with
  | checks hcheck => exact ⟨h, fun _ => hcheck⟩
  | claims => exact ⟨{ h with }, fun _ => h.passed _ hc (.inl rfl)⟩
  | binds => exact ⟨h, fun _ => h.passed _ hc (.inr rfl)⟩
  | reverts => exact ⟨{ h with }, by rintro (heq | heq) <;> cases heq⟩
  | commits =>
      have hoffers : offers { s with life := .running, listeners := s.listeners ++ [l] } =
          s.offers ++ [l.options] := List.map_append
      refine ⟨⟨h.passed, fun o ho => ?_, fun c hmem => ?_⟩, by rintro (heq | heq) <;> cases heq⟩
      · rw [hoffers] at ho
        rcases List.mem_append.mp ho with hold | hnew
        · exact h.checked o hold
        · rw [List.mem_singleton.mp hnew]
          exact h.passed _ hc (.inr rfl)
      · obtain ⟨o, ho, hsuits⟩ := h.suited c hmem
        exact ⟨o, hoffers ▸ List.mem_append_left _ ho, hsuits⟩
  | _ => exact ⟨h, by rintro (heq | heq) <;> cases heq⟩

theorem setConnections (h : s.Staffed) {connections : List Connection}
    (hc : ∀ c ∈ connections, ∃ o ∈ s.offers, c.Suits o) : Staffed { s with connections } :=
  ⟨h.passed, h.checked, hc⟩

/-- **Every step keeps the invariant.** -/
theorem step {a : Action} (h : s.Staffed) (hm : Move s a s') : s'.Staffed := by
  cases hm with
  | registers => exact { h with }
  | callsStart => exact h.addCall (by rintro (heq | heq) <;> cases heq)
  | callsStop => exact h.addCall trivial
  | start hc hs =>
      obtain ⟨hnext, hchecked⟩ := h.starts (List.mem_of_getElem? hc) hs
      rw [← calls_of_starts hs]
      exact hnext.setCall hchecked
  | marks =>
      have htold : s.mark.Staffed := by
        refine ⟨h.passed, h.checked, fun c hmem => ?_⟩
        obtain ⟨c₀, hmem₀, rfl⟩ := List.mem_map.mp hmem
        obtain ⟨o, ho, hsuits⟩ := h.suited c₀ hmem₀
        exact ⟨o, ho, hsuits.stop⟩
      exact htold.setCall trivial
  | deaf => exact h.setCall trivial
  | ends => exact h.setCall trivial
  | @accepts i _ _ l info hl =>
      let l' : Listener := { l with accepted := l.accepted + 1 }
      have hset : Staffed { s with listeners := s.listeners.set i l' } := h.setListener hl rfl
      have hoffer := (offers_set hl (show l'.options = l.options from rfl)).symm ▸ mem_offers hl
      refine hset.setConnections fun c hmem => ?_
      rcases List.mem_append.mp hmem with hold | hnew
      · exact hset.suited c hold
      · rw [List.mem_singleton.mp hnew]
        exact ⟨l.options, hoffer, Connection.suits_accept (hset.checked _ hoffer) info s.stopping⟩
  | endsListener hl => exact h.setListener hl rfl
  | connection hc hs =>
      refine h.setConnections fun other hmem => ?_
      rcases List.mem_or_eq_of_mem_set hmem with hold | rfl
      · exact h.suited other hold
      · obtain ⟨o, ho, hsuits⟩ := h.suited _ (List.mem_of_getElem? hc)
        exact ⟨o, ho, hsuits.step (h.checked o ho) hs⟩

theorem run (h : s.Staffed) {actions : List Action} (hrun : s.run? actions = some s') :
    s'.Staffed :=
  foldlM_induction (motive := fun _ s => s.Staffed) h
    (fun _ hmid hs => hmid.step (move_of_step? hs)) hrun

theorem exists_listener (h : s.Staffed) {c : Connection} (hmem : c ∈ s.connections) :
    ∃ l ∈ s.listeners, c.Suits l.options := by
  obtain ⟨o, ho, hsuits⟩ := h.suited c hmem
  obtain ⟨l, hl, rfl⟩ := List.mem_map.mp ho
  exact ⟨l, hl, hsuits⟩

end Staffed

end Server

/-! ## The gap above the largest capacity -/

namespace Options

/-- A document with a capacity that is too large is accepted, and so are its options. -/
theorem accepted_and_unable {n : Nat} (hlarge : Outbox.largestCapacity < n)
    (hnumber : n ≤ Settings.largestNumber) :
    ∃ document s, Settings.parse? document = some s ∧ s.queueCapacity = n ∧
      ∀ files, ∃ o, s.toOptions files = .ok o ∧ o.check = .ok () ∧
        ∀ info stopping, Session.start? o info stopping = none := by
  let s : Settings := { queueCapacity := n }
  have hzero : 0 < 2 ^ 63 := by decide
  have hsize : defaultMaxMessageSize < 2 ^ 63 := by decide
  have hwritable : s.isWritable = true :=
    Settings.isWritable_iff.mpr ⟨hzero, hzero, Nat.lt_succ_of_le hnumber, hsize⟩
  refine ⟨s.document, s, Settings.parse?_of_write? (if_pos hwritable), rfl, fun files => ?_⟩
  obtain ⟨o, hoptions⟩ : ∃ o, s.toOptions files = .ok o := ⟨_, rfl⟩
  have hcheck : o.check = .ok () := by
    rw [Settings.check_of_toOptions hoptions]
    exact ⟨Nat.zero_lt_of_lt hlarge, show 1 ≤ defaultMaxMessageSize by decide⟩
  refine ⟨o, hoptions, hcheck, fun info stopping => ?_⟩
  rw [← Option.not_isSome_iff_eq_none, Session.isSome_start?,
    (Settings.eq_of_toOptions hoptions).1]
  exact fun hroom => Nat.not_le_of_lt hlarge hroom.2

/-- **Options that pass the check start a session exactly if their capacity is not too large**,
whether they come from calls or from a document, and documents reach beyond that. In a running
server all options passed the check, and what breaks a connection is a capacity that is too large.
-/
theorem startable_iff_of_check (settings : List Setting) (document : String)
    (actions : List Server.Action) (info : SessionInfo) (stopping : Bool) :
    ((built settings).check = .ok () →
      ((Session.start? (built settings) info stopping).isSome = true ↔
        (settings.filterMap Setting.capacity?).getLastD 20 ≤ Outbox.largestCapacity)) ∧
    (∀ s files o, Settings.parse? document = some s → s.toOptions files = .ok o →
      s.queueCapacity ≤ Settings.largestNumber ∧
      (o.check = .ok () ↔ 1 ≤ s.queueCapacity ∧ 1 ≤ s.maxMessageSize) ∧
      (o.check = .ok () →
        ((Session.start? o info stopping).isSome = true ↔
          s.queueCapacity ≤ Outbox.largestCapacity))) ∧
    (∀ n, Outbox.largestCapacity < n → n ≤ Settings.largestNumber →
      ∃ document s, Settings.parse? document = some s ∧ s.queueCapacity = n ∧
        ∀ files, ∃ o, s.toOptions files = .ok o ∧ o.check = .ok () ∧
          ∀ info stopping, Session.start? o info stopping = none) ∧
    ∀ s, ({} : Server).run? actions = some s →
      (∀ l ∈ s.listeners, l.options.check = .ok ()) ∧
      (.broken ∈ s.connections →
        ∃ l ∈ s.listeners, Outbox.largestCapacity < l.options.queueCapacity) ∧
      ∀ session, .serving session ∈ s.connections →
        ∃ l ∈ s.listeners, l.options.queueCapacity ≤ Outbox.largestCapacity := by
  have hstart (o : Options) (hcheck : o.check = .ok ()) :
      (Session.start? o info stopping).isSome = true ↔
        o.queueCapacity ≤ Outbox.largestCapacity := by
    rw [Session.isSome_start?]
    exact and_iff_right ((check_eq_ok_iff o).mp hcheck).1
  refine ⟨fun hcheck => ?_, fun s files o hparse hoptions => ?_, fun n => accepted_and_unable,
    fun s hrun => ?_⟩
  · rw [hstart _ hcheck, built, queueCapacity_foldl_set]
  · have hnumber := (Settings.isWritable_iff.mp (Settings.isWritable_of_parse? hparse)).2.2.1
    refine ⟨Nat.le_of_lt_succ hnumber, Settings.check_of_toOptions hoptions, fun hcheck => ?_⟩
    rw [hstart o hcheck, (Settings.eq_of_toOptions hoptions).1]
  · have hstaffed := Server.Staffed.start.run hrun
    exact ⟨fun l hl => hstaffed.checked _ (List.mem_map_of_mem hl),
      hstaffed.exists_listener, fun session => hstaffed.exists_listener⟩

def visitor : SessionInfo := ⟨1, .short ⟨192, 0, 2, 1⟩ 40000, .short ⟨192, 0, 2, 2⟩ 389, false, {}⟩

def startupActions (o : Options) : List Server.Action :=
  [.registerHandler, .callStart "192.0.2.2:389" o false, .goOn 0 true, .goOn 0 true, .goOn 0 true,
    .goOn 0 true, .accept 0 visitor.peer visitor.localEnd]

/-- The least capacity that is too large stands in a document and passes the check. The server starts,
and its first connection breaks. -/
theorem unable_with_checked_capacity : ∃ s o server,
    Settings.parse? "outbound_queue_capacity = 2305843009213693952" = some s ∧
    s.toOptions (fun _ => none) = .ok o ∧ o.check = .ok () ∧
    Session.start? o visitor false = none ∧
    ({} : Server).run? (startupActions o) = some server ∧ server.connections = [.broken] := by
  have hparse : Settings.parse? "outbound_queue_capacity = 2305843009213693952" =
      some { queueCapacity := 2305843009213693952 } := by decide +kernel
  exact ⟨_, _, _, hparse, rfl, rfl, rfl, rfl, rfl⟩

theorem startable_iff_of_check_bounds : ∃ broken serving,
    ((Session.start? (built [.queueCapacity 0, .queueCapacity 3]) visitor false).isSome = true ↔
      3 ≤ Outbox.largestCapacity) ∧
    ((Session.start? (({} : Options).withQueueCapacity 4) visitor true).isSome = true ↔
      4 ≤ Outbox.largestCapacity) ∧
    (∃ document s, Settings.parse? document = some s ∧ s.queueCapacity = 2 ^ 61) ∧
    ({} : Server).run? (startupActions (built [.queueCapacity (2 ^ 61)])) = some broken ∧
    (∃ l ∈ broken.listeners, Outbox.largestCapacity < l.options.queueCapacity) ∧
    ({} : Server).run? (startupActions {}) = some serving ∧
    ∃ l ∈ serving.listeners, l.options.queueCapacity ≤ Outbox.largestCapacity := by
  have hparse : Settings.parse? "outbound_queue_capacity = 4" = some { queueCapacity := 4 } := by
    decide +kernel
  have hbroken : ({} : Server).run? (startupActions (built [.queueCapacity (2 ^ 61)])) = some _ :=
    rfl
  have hserving : ({} : Server).run? (startupActions {}) = some _ := rfl
  obtain ⟨hcalls, -, hgap, hbreaks⟩ := startable_iff_of_check [.queueCapacity 0, .queueCapacity 3]
    "" (startupActions (built [.queueCapacity (2 ^ 61)])) visitor false
  obtain ⟨-, hdocument, -, hserves⟩ := startable_iff_of_check [] "outbound_queue_capacity = 4"
    (startupActions {}) visitor true
  obtain ⟨document, s, hs, hcapacity, -⟩ := hgap (2 ^ 61) (by decide) (by decide)
  exact ⟨_, _, hcalls rfl, (hdocument _ (fun _ => none) _ hparse rfl).2.2 rfl,
    ⟨document, s, hs, hcapacity⟩, hbroken, (hbreaks _ hbroken).2.1 (by decide), hserving,
    (hserves _ hserving).2.2 _ (List.mem_singleton.mpr rfl)⟩

end Options

end Directory
