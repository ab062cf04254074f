import Directory.Proofs.Framing
import Directory.Proofs.Session.Disturbance
import Directory.Proofs.Session.Progress
import Mathlib.Data.List.Infix

/-!
# Which requests are handed to handlers

The requests of a stream are its envelopes up to the first one that cannot be decoded or asks to
unbind (`requestsOf`); further octets only add to them (`requestsOf_prefix`). A session works through
that list. `Serves` is the invariant: the requests so far are the envelopes that were peeled off what
has arrived, and where the reading ends, the stream has no further ones. It holds as long as nothing
else ends the reading and no upgrade changes what is read (`isDisturbed`), and gives
`dispatches_of_run`.
-/

namespace Directory.Session

variable {s s' : Session} {a : Action} {actions : List Action} {limit : Nat}

/-! ## The requests of a stream -/

def isRequest (raw : Octets) : Bool :=
  match Message.decode raw with
  | .ok m => !m.isUnbind
  | .error _ => false

/-- The envelopes of a stream up to the first one that is no request. -/
def requestsOf (limit : Nat) (stream : Octets) : List Octets :=
  (Splitter.feedAll limit [stream]).frames.takeWhile isRequest

theorem isRequest_of_decode {raw : Octets} {m : Message} (h : Message.decode raw = .ok m) :
    isRequest raw = !m.isUnbind := by
  rw [isRequest, h]

theorem requestsOf_of_falls {stream left : Octets} {frames : List Octets}
    {error : Option StreamError} (h : Falls limit stream frames error left) :
    requestsOf limit stream = frames.takeWhile isRequest := by
  obtain ⟨-, hfalls⟩ := Splitter.falls_feedAll limit [stream]
  rw [List.flatten_singleton] at hfalls
  obtain ⟨hframes, -⟩ := hfalls.unique h
  rw [requestsOf, hframes]

theorem exists_falls (limit : Nat) (stream : Octets) :
    ∃ frames error left, Falls limit stream frames error left := by
  obtain ⟨-, hfalls⟩ := Splitter.falls_feedAll limit [stream]
  rw [List.flatten_singleton] at hfalls
  exact ⟨_, _, _, hfalls⟩

/-- Requests that were peeled off come first, and those of the rest behind them. -/
theorem requestsOf_of_peels {stream left : Octets} {raws : List Octets}
    (h : Peels limit stream raws left) (hraws : ∀ raw ∈ raws, isRequest raw = true) :
    requestsOf limit stream = raws ++ requestsOf limit left := by
  obtain ⟨frames, error, left', hleft⟩ := exists_falls limit left
  rw [requestsOf_of_falls (.of_peels h hleft), requestsOf_of_falls hleft,
    List.takeWhile_append_of_pos hraws]

/-- Further octets only add requests. -/
theorem requestsOf_prefix (limit : Nat) (stream more : Octets) :
    requestsOf limit stream <+: requestsOf limit (stream ++ more) := by
  obtain ⟨frames, error, left, hfalls⟩ := exists_falls limit stream
  obtain ⟨frames', error', left', hmore⟩ := exists_falls limit (left ++ more)
  rw [requestsOf_of_falls hfalls, requestsOf_of_falls (hfalls.append hmore), List.takeWhile_append]
  split
  · next hall =>
    have hself : frames.takeWhile isRequest = frames :=
      (List.takeWhile_prefix _).eq_of_length hall
    rw [hself]
    exact List.prefix_append ..
  · exact List.prefix_refl _

theorem flatten_requestsOf_within (limit : Nat) (stream : Octets) :
    (requestsOf limit stream).flatten <+: stream := by
  obtain ⟨frames, error, left, hfalls⟩ := exists_falls limit stream
  obtain ⟨behind, hframes⟩ := List.takeWhile_prefix isRequest (l := frames)
  rw [requestsOf_of_falls hfalls]
  refine ⟨behind.flatten ++ left, ?_⟩
  rw [← List.append_assoc, ← List.flatten_append, hframes, hfalls.flatten_append]

section Stops

variable {bytes : Octets}

theorem requestsOf_of_waiting (h : envelopeSize bytes limit = .ok none) :
    requestsOf limit bytes = [] := by
  rw [requestsOf_of_falls (.waits h)]
  rfl

theorem requestsOf_of_refused {cause : WireError} (h : envelopeSize bytes limit = .error cause)
    (more : Octets) : requestsOf limit (bytes ++ more) = [] := by
  have hmore : envelopeSize (bytes ++ more) limit = .error cause := by
    rw [envelopeSize_append (by rw [h]; simp) more, h]
  rw [requestsOf_of_falls (.refused hmore)]
  rfl

/-- Nothing behind an envelope that is no request is one of the requests. -/
theorem requestsOf_of_cut {n : Nat} (h : envelopeSize bytes limit = .ok (some n))
    (hr : isRequest (bytes.take n) = false) (more : Octets) :
    requestsOf limit (bytes ++ more) = [] := by
  obtain ⟨frames, error, left, hfalls⟩ := exists_falls limit (bytes.drop n ++ more)
  have hcut : Peels limit bytes [bytes.take n] (bytes.drop n) := .cut h .whole
  rw [requestsOf_of_falls (.of_peels (hcut.append more) hfalls), List.singleton_append,
    List.takeWhile_cons_of_neg (by simp [hr])]

end Stops

/-! ## What a session has done with its stream -/

def arrived (actions : List Action) : Octets :=
  actions.flatMap fun
    | .receive chunk => chunk
    | _ => []

def raws (s : Session) : List Octets := s.letters.map (·.raw)

/-- All that is offered to the output was written for one of the requests handed over, but for the
announcement that the server is stopping. -/
def Answers (actions : List Action) (s : Session) : Prop :=
  ∀ m, .message m ∈ s.output.outbox.offered → m = notice ∨ ∃ r l written,
    .handler r (.write written) ∈ actions ∧ s.letters[r]? = some l ∧
    m = { written with id := l.message.id }

/-- What a session has done with the octets that have arrived. -/
structure Dispatches (limit : Nat) (actions : List Action) (s : Session) : Prop where
  /-- At any time the requests handed over are the first ones of the stream, whatever is still to
  come, and their octets are the beginning of it. -/
  within : ∀ more, s.raws <+: requestsOf limit (arrived actions ++ more)
  octets : s.raws.flatten <+: arrived actions
  /-- While octets are waited for, no request that is complete is held back. -/
  waiting : s.waitsFor.isSome = true → s.raws = requestsOf limit (arrived actions)
  /-- Where the reading is over, they are all: if the client has not closed its side, then what ended
  the reading is in the stream, and none that is still to come would be handed over. -/
  complete : s.phase.isOver = true → ∀ more, (.endOfStream ∈ actions → more = []) →
    s.raws = requestsOf limit (arrived actions ++ more)
  still : s.phase.isOver = true → ∀ {a s'}, s.step? a = some s' →
    s'.phase.isOver = true ∧ s'.letters = s.letters
  /-- A handler sees the message that the octets spell, and its sink has the identifier of it. -/
  contexts : ∀ i ∈ s.requests, ∃ m, Message.decode i.raw = .ok m ∧ m.isUnbind = false ∧
    i.message = m ∧ sinkOf i = ⟨m.id⟩
  /-- A request is registered once, by the reading, before its handler runs. -/
  registers : ∀ {a s'}, s.step? a = some s' → s'.letters ≠ s.letters → a = .read ∧ ∃ l,
    s'.letters = s.letters ++ [l] ∧
    s'.roster = s.roster.register l.message.id s.letters.length ∧ s'.Runs s.letters.length
  once : s.roster.guards.length = s.letters.length
  /-- A request to unbind ends the reading and does nothing else. -/
  unbinds : ∀ {source raw splitter m}, s.Cuts source raw splitter → Message.decode raw = .ok m →
    m.isUnbind = true → ∃ s', s.step? .read = some s' ∧ s'.phase.isOver = true ∧
      s'.requests = s.requests ∧ s'.roster = s.roster ∧ s'.output = s.output
  answers : Answers actions s
  /-- The reading goes on unless it waits for octets or for a handler, and it takes two steps at most
  for each request and one more. -/
  goesOn : s.phase.isOver = false → (s.step? .read).isSome = true ∨ s.waitsFor.isSome = true ∨
    ∃ r, s.phase = .serving r ∧ s.Runs r
  steps : actions.count .read ≤ 2 * s.letters.length + 1

/-! ## The invariant -/

/-- How many steps the reading may take, beyond those for the next requests, before it is over. -/
def Phase.toll : Phase → Nat
  | .reading => 1
  | .serving _ => 2
  | _ => 0

theorem Phase.of_isOver {p : Phase} (h : p.isOver = true) : p.isListening = false ∧ p.toll = 0 := by
  cases p <;> first | exact ⟨rfl, rfl⟩ | cases h

/-- The requests so far are the envelopes that were peeled off what has arrived. -/
structure Serves (limit : Nat) (actions : List Action) (s : Session) : Prop where
  genuine : ∀ l ∈ s.letters, Message.decode l.raw = .ok l.message ∧ l.message.isUnbind = false
  listening : s.phase.isListening = true → ∃ source, s.source = some source ∧
    source.splitter.limit = limit ∧ Peels limit (arrived actions) s.raws source.splitter.pending
  complete : s.phase.isOver = true → ∀ more, (.endOfStream ∈ actions → more = []) →
    requestsOf limit (arrived actions ++ more) = s.raws
  paced : actions.count .read + s.phase.toll ≤ 2 * s.letters.length + 1

theorem arrived_concat_receive (actions : List Action) (chunk : Octets) :
    arrived (actions ++ [.receive chunk]) = arrived actions ++ chunk := by
  simp [arrived]

theorem arrived_concat (h : ∀ chunk, a ≠ .receive chunk) :
    arrived (actions ++ [a]) = arrived actions := by
  rw [arrived, List.flatMap_append, List.flatMap_singleton, ← arrived]
  split
  · next chunk => exact absurd rfl (h chunk)
  · exact List.append_nil _

namespace Serves

theorem raws_isRequest (h : Serves limit actions s) : ∀ raw ∈ s.raws, isRequest raw = true := by
  intro raw hmem
  obtain ⟨l, hl, rfl⟩ := List.mem_map.mp hmem
  obtain ⟨hd, hu⟩ := h.genuine l hl
  rw [isRequest_of_decode hd, hu]
  rfl

theorem raws_congr (hl : s'.letters = s.letters) : s'.raws = s.raws := by
  rw [raws, raws, hl]

theorem peels_of_source (h : Serves limit actions s) {source : Source}
    (hp : s.phase.isListening = true) (hs : s.source = some source) :
    source.splitter.limit = limit ∧
      Peels limit (arrived actions) s.raws source.splitter.pending := by
  obtain ⟨_, hsource, hpeels⟩ := h.listening hp
  cases hs.symm.trans hsource
  exact hpeels

theorem goOn (h : Serves limit actions s) (ha : ∀ chunk, a ≠ .receive chunk)
    (hl : s'.letters = s.letters)
    (hlistening : s'.phase.isListening = true → s.phase.isListening = true ∧ s'.source = s.source)
    (hover : s'.phase.isOver = true → s.phase.isOver = true)
    (hpaced : [a].count .read + s'.phase.toll ≤ s.phase.toll) :
    Serves limit (actions ++ [a]) s' where
  genuine := by
    rw [hl]
    exact h.genuine
  listening := by
    intro hp
    obtain ⟨hp, hs⟩ := hlistening hp
    rw [hs, arrived_concat ha, raws_congr hl]
    exact h.listening hp
  complete := by
    intro hp more hmore
    rw [arrived_concat ha, raws_congr hl]
    exact h.complete (hover hp) more fun hmem => hmore (List.mem_append_left _ hmem)
  paced := by
    rw [List.count_append, hl]
    have := h.paced
    omega

theorem frame (h : Serves limit actions s) (ha : ∀ chunk, a ≠ .receive chunk) (hread : a ≠ .read)
    (hl : s'.letters = s.letters) (hp : s'.phase = s.phase) (hs : s'.source = s.source) :
    Serves limit (actions ++ [a]) s' := by
  refine h.goOn ha hl ?_ (hp ▸ id) ?_
  · rw [hp]
    exact fun hlistening => ⟨hlistening, hs⟩
  · rw [List.count_singleton, if_neg (by simpa using hread), hp, Nat.zero_add]

theorem resume (h : Serves limit actions s) {r : Nat} (hp : s.phase = .serving r)
    (hl : s'.letters = s.letters) (hp' : s'.phase = .reading) (hs : s'.source = s.source) :
    Serves limit (actions ++ [.read]) s' := by
  refine h.goOn nofun hl (fun _ => ⟨hp ▸ rfl, hs⟩) ?_ ?_
  · rw [hp']
    exact nofun
  · rw [hp, hp']
    show [Action.read].count .read + 1 ≤ 2
    decide

theorem close (h : Serves limit actions s) (hp : s.phase.isOver = true) (hl : s'.letters = s.letters)
    (hp' : s'.phase.isOver = true) : Serves limit (actions ++ [.close]) s' := by
  have hother := Phase.of_isOver hp'
  refine h.goOn nofun hl ?_ (fun _ => hp) ?_
  · rw [hother.1]
    exact nofun
  · rw [hother.2]
    exact Nat.zero_le _

/-- The reading ends where the stream has no further requests. -/
theorem finish (h : Serves limit actions s) (ha : ∀ chunk, a ≠ .receive chunk)
    (hp : s.phase = .reading) {source : Source} (hs : s.source = some source)
    (hl : s'.letters = s.letters) (hp' : s'.phase.isOver = true)
    (hstop : ∀ more, (a = .endOfStream → more = []) →
      requestsOf source.splitter.limit (source.splitter.pending ++ more) = []) :
    Serves limit (actions ++ [a]) s' := by
  obtain ⟨hlimit, hpeels⟩ := h.peels_of_source (hp ▸ rfl) hs
  have hother := Phase.of_isOver hp'
  refine ⟨?_, ?_, ?_, ?_⟩
  · rw [hl]
    exact h.genuine
  · rw [hother.1]
    exact nofun
  · intro _ more hmore
    have hrest := hstop more fun ha => hmore (by simp [ha])
    rw [arrived_concat ha, raws_congr hl,
      requestsOf_of_peels (hpeels.append more) h.raws_isRequest, ← hlimit, hrest, List.append_nil]
  · have hpaced := h.paced
    have hone : [a].count Action.read ≤ 1 := List.count_le_length
    rw [hp] at hpaced
    rw [List.count_append, hother.2, hl]
    simp only [Phase.toll] at hpaced
    omega

theorem take (h : Serves limit actions s) {source : Source} {raw : Octets} {splitter : Splitter}
    (hc : s.Cuts source raw splitter) {m : Message} (hd : Message.decode raw = .ok m)
    (hu : m.isUnbind = false) (hl : s'.letters = s.letters ++ [⟨source.channel, raw, m⟩])
    (hs : s'.source = some { source with splitter })
    (hp : s'.phase = .reading ∨ ∃ r, s'.phase = .serving r) :
    Serves limit (actions ++ [.read]) s' := by
  obtain ⟨hlimit, hpeels⟩ := h.peels_of_source (hc.reading ▸ rfl) hc.source_eq
  obtain ⟨n, hsize, rfl, rfl⟩ := Splitter.size_of_next hc.next_eq
  rw [hlimit] at hsize
  have hother : s'.phase.isOver = false ∧ s'.phase.toll ≤ 2 := by
    rcases hp with hp | ⟨r, hp⟩ <;> rw [hp]
    · exact ⟨rfl, Nat.le_succ 1⟩
    · exact ⟨rfl, Nat.le_refl 2⟩
  refine ⟨?_, ?_, ?_, ?_⟩
  · intro l hmem
    rw [hl] at hmem
    rcases List.mem_append.mp hmem with hold | hnew
    · exact h.genuine l hold
    · rw [List.mem_singleton.mp hnew]
      exact ⟨hd, hu⟩
  · intro _
    refine ⟨_, hs, hlimit, ?_⟩
    rw [arrived_concat (a := .read) nofun, raws, hl, List.map_append, Splitter.pending_drop]
    exact hpeels.concat hsize
  · intro hover
    cases hother.1.symm.trans hover
  · have hpaced := h.paced
    rw [hc.reading] at hpaced
    rw [List.count_append, hl, List.length_append]
    simp only [Phase.toll] at hpaced
    have htoll := hother.2
    simp only [List.count_singleton_self, List.length_singleton]
    omega

theorem receive (h : Serves limit actions s) {source : Source} {chunk : Octets}
    (hw : s.waitsFor = some source) : Serves limit (actions ++ [.receive chunk])
      { s with source := some { source with splitter := source.splitter.receive chunk } } := by
  obtain ⟨hp, -, hs, -⟩ := waitsFor_eq_some.mp hw
  obtain ⟨hlimit, hpeels⟩ := h.peels_of_source (hp ▸ rfl) hs
  refine ⟨h.genuine, ?_, ?_, ?_⟩
  · intro _
    refine ⟨_, rfl, hlimit, ?_⟩
    rw [arrived_concat_receive, Splitter.pending_receive]
    exact hpeels.append chunk
  · show s.phase.isOver = true → _
    rw [hp]
    exact nofun
  · have hnone : [Action.receive chunk].count .read = 0 := rfl
    rw [List.count_append, hnone]
    exact h.paced

/-! ### The moves -/

/-- What keeps the next octets from being a request stands at the front of what is left. -/
theorem requestsOf_of_next {splitter : Splitter} {cause : WireError}
    (h : splitter.next = .error cause) (more : Octets) :
    requestsOf splitter.limit (splitter.pending ++ more) = [] := by
  rw [Splitter.next_eq] at h
  split at h
  · next hsize => exact requestsOf_of_refused hsize more
  · cases h
  · cases h

theorem requestsOf_of_isWaiting {splitter : Splitter} (h : splitter.isWaiting = true) :
    requestsOf splitter.limit splitter.pending = [] := by
  unfold Splitter.isWaiting at h
  rw [Splitter.nextSize_eq] at h
  split at h
  · next hsize => exact requestsOf_of_waiting hsize
  · cases h

theorem requestsOf_of_isRequest {splitter splitter' : Splitter} {raw : Octets}
    (h : splitter.next = .ok (some (raw, splitter'))) (hr : isRequest raw = false)
    (more : Octets) : requestsOf splitter.limit (splitter.pending ++ more) = [] := by
  obtain ⟨n, hsize, rfl, -⟩ := Splitter.size_of_next h
  exact requestsOf_of_cut hsize hr more

/-- **Every move keeps the invariant or disturbs the reading.** -/
theorem move (h : Serves limit actions s) (hm : Move s a s') :
    s'.isDisturbed = true ∨ Serves limit (actions ++ [a]) s' := by
  cases hm with
  | agree hi => exact .inr (h.frame nofun nofun (letters_modify rfl fun _ => rfl) rfl rfl)
  | handlerReturns hi hrun | handlerPanics hi hrun =>
      exact .inr (h.frame nofun nofun (letters_modify rfl fun _ => rfl) rfl rfl)
  | receive hw => exact .inr (h.receive hw)
  | clientClosed hw | cutShort hw =>
      obtain ⟨hp, -, hs, hwaiting⟩ := waitsFor_eq_some.mp hw
      refine .inr (h.finish nofun hp hs rfl rfl fun more hmore => ?_)
      rw [hmore rfl, List.append_nil]
      exact requestsOf_of_isWaiting hwaiting
  | loseConnection hw | expire hw => exact .inl (isDisturbed_leave rfl)
  | interrupt hp => exact .inl (isDisturbed_leave rfl)
  | noSource hp hi hnone =>
      obtain ⟨source, hs, -⟩ := h.listening (hp ▸ rfl)
      exact nomatch hnone.symm.trans hs
  | refuse hp hi hs hn =>
      exact .inr (h.finish nofun hp hs rfl rfl fun more _ => requestsOf_of_next hn more)
  | undecodable hc hd =>
      refine .inr (h.finish nofun hc.reading hc.source_eq rfl rfl fun more _ => ?_)
      exact requestsOf_of_isRequest hc.next_eq (by rw [isRequest, hd]) more
  | unbind hc hd hu =>
      refine .inr (h.finish nofun hc.reading hc.source_eq rfl rfl fun more _ => ?_)
      exact requestsOf_of_isRequest hc.next_eq (by rw [isRequest_of_decode hd, hu]; rfl) more
  | startTls hc hd hu ht =>
      exact .inr (h.take hc hd hu (letters_invoke ..) rfl (.inr ⟨_, rfl⟩))
  | dispatch hc hd hu ht =>
      exact .inr (h.take hc hd hu (letters_invoke ..) rfl (.inl hc.reading))
  | declined hr | noAcceptor hr => exact .inr (h.resume hr.serving rfl rfl rfl)
  | sourceGone hr hnone =>
      obtain ⟨source, hs, -⟩ := h.listening (hr.serving ▸ rfl)
      exact nomatch hnone.symm.trans hs
  | pauseQueued hr | pauseOffered hr | pauseAdmitted hp | takeWriter hp =>
      exact .inl (isDisturbed_of_handingOver rfl)
  | servantPanicked hp | alreadySecured hr | pipelined hr | pauseRefused hr | pauseTurnedAway hp
  | writerMissing hp | writerSecure hp | pauseLost hp | giveUp hp =>
      exact .inl (isDisturbed_leave rfl)
  | upgraded hp =>
      exact .inl (isDisturbed_of_mem (List.mem_append_right _ (List.mem_singleton.mpr rfl)) rfl)
  | @handshakeFails pause cause => cases cause <;> exact .inl (isDisturbed_leave rfl)
  | silence hp | stopReading hp | sweep hp | join hp | closeQueued hp | closeOffered hp
  | closeRefused hp | closeAdmitted hp | drained hp | hangUp hp =>
      exact .inr (h.close (hp ▸ rfl) rfl rfl)
  -- The others have nothing to do with what is read.
  | _ => exact .inr (h.frame nofun nofun rfl rfl rfl)

theorem start {options : Options} {info : SessionInfo} {stopping : Bool}
    (h : start? options info stopping = some s) : Serves options.maxMessageSize [] s := by
  obtain ⟨-, rfl⟩ := start?_eq_some h
  refine ⟨fun l hmem => absurd hmem List.not_mem_nil, fun _ => ⟨_, rfl, rfl, .whole⟩, ?_,
    Nat.le_refl 1⟩
  intro hover
  cases hover

theorem run {options : Options} {info : SessionInfo} {stopping : Bool} {s₀ : Session}
    (h₀ : start? options info stopping = some s₀) (h : s₀.run? actions = some s) :
    s.isDisturbed = true ∨ Serves options.maxMessageSize actions s := by
  refine run?_induction (motive := fun actions s =>
    s.isDisturbed = true ∨ Serves options.maxMessageSize actions s) (.inr (start h₀)) ?_ h
  intro actions mid a next _ hmid hm
  rcases hmid with hdisturbed | hserves
  · exact .inl (isDisturbed_of_move hm hdisturbed)
  · exact hserves.move hm

end Serves

/-! ## What comes of it -/

theorem invoked_of_move (hm : Move s a s') (hne : s'.letters ≠ s.letters) : a = .read ∧ ∃ l,
    s'.letters = s.letters ++ [l] ∧
    s'.roster = s.roster.register l.message.id s.letters.length ∧ s'.Runs s.letters.length := by
  cases hm with
  | startTls hc | dispatch hc =>
      refine ⟨rfl, _, letters_invoke .., ?_, ?_⟩
      · rw [length_letters]
        rfl
      · rw [length_letters]
        exact ⟨_, List.getElem?_concat_length, rfl⟩
  | agree hi => exact (hne (letters_modify rfl fun _ => rfl)).elim
  | handlerReturns hi hrun | handlerPanics hi hrun =>
      exact (hne (letters_modify rfl fun _ => rfl)).elim
  | _ => exact absurd rfl hne

/-- Messages are offered by handlers and by the watcher only. -/
theorem offered_of_move (hm : Move s a s') {m : Message}
    (hmem : .message m ∈ s'.output.outbox.offered) :
    .message m ∈ s.output.outbox.offered ∨ m = notice ∨ ∃ r i written,
      a = .handler r (.write written) ∧ s.requests[r]? = some i ∧ m = (sinkOf i).stamp written := by
  rcases outbox_of_move hm with ⟨item, hoffers, heq⟩ | hdrains
  · rw [heq, Outbox.offered_send] at hmem
    split at hmem
    next => exact .inl hmem
    next =>
      refine (List.mem_append.mp hmem).imp_right fun hnew => ?_
      cases List.mem_singleton.mp hnew
      cases hoffers with
      | response hi => exact .inr ⟨_, _, _, rfl, hi, rfl⟩
      | notice => exact .inl rfl
  · exact .inl (hdrains.offered_prefix.subset hmem)

theorem letter_of_move (hm : Move s a s') {r : Nat} {l : Letter} (hl : s.letters[r]? = some l) :
    s'.letters[r]? = some l := by
  rcases letters_of_move hm with heq | ⟨_, _, _, _, -, -, hletters, -⟩
  · rw [heq, hl]
  · rw [hletters, List.getElem?_append_left (List.getElem?_eq_some_iff.mp hl).1, hl]

theorem answers_of_run {s₀ : Session} {options : Options} {info : SessionInfo} {stopping : Bool}
    (h₀ : start? options info stopping = some s₀) (h : s₀.run? actions = some s) :
    Answers actions s := by
  refine run?_induction (motive := Answers) ?_ ?_ h
  · obtain ⟨-, rfl⟩ := start?_eq_some h₀
    intro m hmem
    cases hmem
  · intro actions mid a next _ hmid hm m hmem
    rcases offered_of_move hm hmem with hold | hnotice | ⟨r, i, written, rfl, hi, rfl⟩
    · refine (hmid m hold).imp_right ?_
      rintro ⟨r, l, written, hin, hl, rfl⟩
      exact ⟨r, l, written, List.mem_append_left _ hin, letter_of_move hm hl, rfl⟩
    · exact .inl hnotice
    · refine .inr ⟨r, i.letter, written, List.mem_append_right _ (List.mem_singleton.mpr rfl), ?_, rfl⟩
      exact letter_of_move hm (by simp [letters, hi])

/-- A request to unbind ends the reading and does nothing else. -/
theorem unbinds_of_cuts {source : Source} {raw : Octets} {splitter : Splitter}
    (hc : s.Cuts source raw splitter) {m : Message} (hd : Message.decode raw = .ok m)
    (hu : m.isUnbind = true) : ∃ s', s.step? .read = some s' ∧ s'.phase.isOver = true ∧
      s'.requests = s.requests ∧ s'.roster = s.roster ∧ s'.output = s.output := by
  refine ⟨(s.advance source splitter).leave .unbindRequested, ?_, rfl, rfl, rfl, rfl⟩
  show s.read = _
  rw [read, hc.reading]
  simp [readNext, hc.undisturbed, hc.source_eq, hc.next_eq, accept, hd, hu, advance]

theorem readNext_isSome {source : Source} (hp : s.phase = .reading) (hs : s.source = some source) :
    (s.step? .read).isSome = true ∨ s.waitsFor.isSome = true := by
  have hread : s.step? .read = s.readNext := by
    show s.read = _
    rw [read, hp]
  rw [hread]
  by_cases hi : s.interrupted = true
  · exact .inl (by simp [readNext, hi])
  · replace hi := eq_false_of_ne_true hi
    cases hn : source.splitter.next with
    | error cause => exact .inl (by simp [readNext, hi, hs, hn])
    | ok cut =>
        cases cut with
        | some cut => exact .inl (by simp [readNext, hi, hs, hn])
        | none =>
            have hwaiting : source.splitter.isWaiting = true := by
              unfold Splitter.next at hn
              unfold Splitter.isWaiting
              split at hn <;> simp_all
            exact .inr (Option.isSome_of_eq_some (waitsFor_eq_some.mpr ⟨hp, hi, hs, hwaiting⟩))

theorem awaitHandler_isSome {r : Nat} {i : Invocation} (hp : s.phase = .serving r)
    (hi : s.requests[r]? = some i) : (s.step? .read).isSome = true ∨ s.Runs r := by
  have hread : s.step? .read = s.awaitHandler r := by
    show s.read = _
    rw [read, hp]
  rw [hread]
  cases hd : i.progress with
  | running => exact .inr ⟨i, hi, hd⟩
  | returned => exact .inl (by simp [awaitHandler, hi, hd])
  | panicked => exact .inl (by simp [awaitHandler, hi, hd])

/-- The reading waits for nothing but octets and the handler of a request for encryption. -/
theorem Serves.goesOn (h : Serves limit actions s) {encrypted : Bool} {given : Channel → Octets}
    (hparted : Parted encrypted given s) (hq : s.isDisturbed = false)
    (hover : s.phase.isOver = false) :
    (s.step? .read).isSome = true ∨ s.waitsFor.isSome = true ∨
      ∃ r, s.phase = .serving r ∧ s.Runs r := by
  have hnot : ¬s.phase.isHandingOver = true := fun hhanding =>
    nomatch hq.symm.trans (isDisturbed_of_handingOver hhanding)
  cases hp : s.phase with
  | reading =>
      obtain ⟨source, hs, -⟩ := h.listening (hp ▸ rfl)
      exact (readNext_isSome hp hs).imp_right .inl
  | serving r =>
      obtain ⟨-, l, hl, -⟩ := hparted.serving r hp
      rw [letters, List.getElem?_map] at hl
      obtain ⟨i, hi, -⟩ := Option.map_eq_some_iff.mp hl
      exact (awaitHandler_isSome hp hi).imp_right fun hruns => .inr ⟨r, rfl, hruns⟩
  | offering ticket pause => exact absurd (hp ▸ rfl) hnot
  | pausing pause => exact absurd (hp ▸ rfl) hnot
  | shaking pause => exact absurd (hp ▸ rfl) hnot
  | closing stage => cases (hp ▸ hover : (Phase.closing stage).isOver = false)
  | closed => cases (hp ▸ hover : Phase.closed.isOver = false)

namespace Serves

theorem within (h : Serves limit actions s) (hp : s.phase.isHandingOver = false) (more : Octets) :
    s.raws <+: requestsOf limit (arrived actions ++ more) := by
  have hlistening (hp : s.phase.isListening = true) :
      s.raws <+: requestsOf limit (arrived actions ++ more) := by
    obtain ⟨source, -, -, hpeels⟩ := h.listening hp
    rw [requestsOf_of_peels (hpeels.append more) h.raws_isRequest]
    exact List.prefix_append ..
  have hover (hp : s.phase.isOver = true) :
      s.raws <+: requestsOf limit (arrived actions ++ more) := by
    have hraws := h.complete hp [] fun _ => rfl
    rw [List.append_nil] at hraws
    rw [← hraws]
    exact requestsOf_prefix ..
  cases hphase : s.phase with
  | reading | serving r => exact hlistening (hphase ▸ rfl)
  | closing stage | closed => exact hover (hphase ▸ rfl)
  | offering ticket pause | pausing pause | shaking pause =>
      rw [hphase] at hp
      cases hp

theorem waiting (h : Serves limit actions s) (hw : s.waitsFor.isSome = true) :
    s.raws = requestsOf limit (arrived actions) := by
  obtain ⟨source, hw⟩ := Option.isSome_iff_exists.mp hw
  obtain ⟨hp, -, hs, hwaiting⟩ := waitsFor_eq_some.mp hw
  obtain ⟨hlimit, hpeels⟩ := h.peels_of_source (hp ▸ rfl) hs
  rw [requestsOf_of_peels hpeels h.raws_isRequest, ← hlimit, requestsOf_of_isWaiting hwaiting,
    List.append_nil]

end Serves

/-- **The requests before the first stopper are handed over, and no others.** Whatever a client sends in
whatever pieces, a session that nothing else disturbs hands the envelopes of the stream over one by one,
up to the first one that cannot be decoded or asks to unbind. -/
theorem dispatches_of_run {options : Options} {info : SessionInfo} {stopping : Bool} {s₀ s : Session}
    {actions : List Action} (h₀ : start? options info stopping = some s₀)
    (hrun : s₀.run? actions = some s) (hq : s.isDisturbed = false) :
    Dispatches options.maxMessageSize actions s := by
  have hreached := Reached.run h₀ hrun
  have h : Serves options.maxMessageSize actions s := by
    rcases Serves.run h₀ hrun with hdisturbed | hserves
    · cases hq.symm.trans hdisturbed
    · exact hserves
  have hp : s.phase.isHandingOver = false := by
    by_contra hhanding
    cases hq.symm.trans (isDisturbed_of_handingOver (eq_true_of_ne_false hhanding))
  constructor
  case within => exact h.within hp
  case octets =>
    have hwithin := h.within hp []
    rw [List.append_nil] at hwithin
    exact (List.IsPrefix.flatten hwithin).trans (flatten_requestsOf_within ..)
  case waiting => exact h.waiting
  case complete => exact fun hover more hmore => (h.complete hover more hmore).symm
  case still =>
    intro hover a s' hstep
    have hm := move_of_step? hstep
    refine ⟨isOver_of_move hm hover, letters_eq_of_move hm fun hreading => ?_⟩
    rw [hreading] at hover
    cases hover
  case contexts =>
    intro i hi
    obtain ⟨hd, hu⟩ := h.genuine i.letter (List.mem_map_of_mem hi)
    exact ⟨i.message, hd, hu, rfl, rfl⟩
  case registers => exact fun hstep hne => invoked_of_move (move_of_step? hstep) hne
  case once => exact hreached.listed.guards.trans (length_letters s).symm
  case unbinds => exact fun hc hd hu => unbinds_of_cuts hc hd hu
  case answers => exact answers_of_run h₀ hrun
  case goesOn => exact h.goesOn hreached.parted hq
  case steps => exact Nat.le_trans (Nat.le_add_right _ _) h.paced

/-- A client sends requests one behind the other, the second of them for encryption, which is
declined, asks to unbind, and sends one more behind that. -/
def pipelinedStream : Octets :=
  lateRequest.encode ++ startTlsRequest.encode ++ lateRequest.encode ++
    Message.encode { id := 9, op := .unbindRequest } ++ lateRequest.encode

def pipelinedActions : List Action :=
  [.receive (pipelinedStream.take 1), .receive (pipelinedStream.drop 1).dropLast, .read, .read,
    .handler 1 .return, .read, .read, .handler 0 (.write lateResponse), .read]

/-- What stands behind the request to unbind is never handed over. -/
theorem dispatches_pipelined : ∃ s₀ s, start? narrowOptions silentInfo false = some s₀ ∧
    s₀.run? pipelinedActions = some s ∧ s.isDisturbed = false ∧
    Dispatches narrowOptions.maxMessageSize pipelinedActions s ∧ s.phase.isOver = true ∧
    s.raws = [lateRequest.encode, startTlsRequest.encode, lateRequest.encode] := by
  have hends : ((start? narrowOptions silentInfo false).bind (·.run? pipelinedActions)).any (fun s =>
      s.phase.isOver = true ∧
        s.raws = [lateRequest.encode, startTlsRequest.encode, lateRequest.encode]) = true := by
    decide +kernel
  obtain ⟨s, hs, hend⟩ := (Option.any_eq_true _ _).mp hends
  obtain ⟨s₀, h₀, hrun⟩ := Option.bind_eq_some_iff.mp hs
  have hq : s.isDisturbed = false := undisturbed_of_run h₀ hrun (by decide)
  exact ⟨s₀, s, h₀, hrun, hq, dispatches_of_run h₀ hrun hq, of_decide_eq_true hend⟩

end Directory.Session
