import Directory.Proofs.Session.Intake
import Directory.Proofs.Session.Teardown

/-!
# Encrypting a session

A client asks for encryption in the clear, so all that it has sent behind the request, before the
handshake, could come from somebody else. The session holds still while the request is answered and
carried out (`Holds`), goes on with the upgrade only if nothing is left in the clear (`Decides`), keeps
what came on the two channels apart (`KeepsApart`), and is marked as encrypted by a handshake and by
nothing else (`Marks`). All of it holds in every state that a session comes to
(`noClearOctets_of_run`).
-/

namespace Directory.Session

variable {s s' : Session} {a : Action}

/-- The phases from when a request for encryption is taken until the upgrade has ended. -/
def Phase.isUpgrading : Phase → Bool
  | .serving _ => true
  | phase => phase.isHandingOver

/-! ## What is promised -/

/-- While a request for encryption is dealt with, nothing is cut off and no handler is called. -/
structure Holds (s : Session) : Prop where
  /-- A request comes with a cut, on the channel of the session; one that asks for encryption is
  waited for. -/
  taking : ∀ {a s'}, s.step? a = some s' → s'.letters ≠ s.letters →
    ∃ source raw splitter m, s.Cuts source raw splitter ∧ Message.decode raw = .ok m ∧
      source.channel = firstChannel s.info.tls ∧
      s'.letters = s.letters ++ [⟨source.channel, raw, m⟩] ∧
      s'.phase = if m.isStartTls then .serving s.letters.length else .reading
  /-- What is waited for is the latest request, and it asks for encryption. -/
  latest : ∀ r, s.phase = .serving r → r + 1 = s.letters.length ∧
    ∃ l, s.letters[r]? = some l ∧ l.message.isStartTls = true
  /-- Meanwhile no step takes a request or touches what has arrived; the source is only taken away,
  and replaced after the handshake. -/
  still : s.phase.isUpgrading = true → ∀ {a s'}, s.step? a = some s' → s'.letters = s.letters ∧
    (s'.source = s.source ∨ s'.source = none ∨
      a = .endHandshake none ∧ s'.source = some (freshSource s.options .secure))
  /-- The reading goes on when the handler has returned without an upgrade to follow, or when the
  handshake has succeeded. -/
  resumes : s.phase.isUpgrading = true → ∀ {a s'}, s.step? a = some s' → s'.phase = .reading →
    (∃ r i, s.Returned r i ∧ (i.startTlsAccepted = false ∨
      s.info.tls = false ∧ s.options.startTls.isNone = true)) ∨
    (∃ pause, s.phase = .shaking pause) ∧ a = .endHandshake none ∧ s'.info.tls = true

/-- What becomes of a request for encryption when its handler has returned. -/
structure Decides (s : Session) : Prop where
  /-- An upgrade begins only with the handler's consent, in the clear, with something to encrypt with,
  and with nothing left of what has arrived. -/
  onlyIf : ∀ {r a s'}, s.phase = .serving r → s.step? a = some s' → s'.phase.isHandingOver = true →
    ∃ i source, s.Agreed r i ∧ s.source = some source ∧ source.splitter.pending = []
  /-- With all of that but the last given, the upgrade begins or the session ends. -/
  agreed : ∀ {r i}, s.Agreed r i → ∃ source s', s.source = some source ∧
    s.step? .read = some s' ∧ s'.letters = s.letters ∧ s'.source = none ∧
    (source.splitter.pending = [] → s'.phase.isHandingOver = true ∧ s'.events = s.events) ∧
    (source.splitter.pending ≠ [] → s'.phase = .closing .silencing ∧
      s'.events = s.events ++ [.failed (.pipelined source.splitter.pending.length)])
  /-- A second upgrade ends the session. -/
  again : ∀ {r i}, s.Returned r i → i.startTlsAccepted = true → s.info.tls = true →
    s.step? .read = some (s.leave (.failed .alreadySecured))
  /-- Without consent the reading goes on with what has arrived. -/
  declined : ∀ {r i}, s.Returned r i → i.startTlsAccepted = false →
    s.step? .read = some { s.report .startTlsDeclined with phase := .reading }
  /-- So it does, in the clear, with nothing to encrypt with. -/
  unable : ∀ {r i}, s.Returned r i → i.startTlsAccepted = true → s.info.tls = false →
    s.options.startTls.isNone = true →
    s.step? .read = some { s.report .noAcceptor with phase := .reading }

/-- What came in the clear and what came encrypted after a run. -/
structure KeepsApart (s₀ : Session) (actions : List Action) (s : Session) : Prop where
  /-- The requests are what was delivered on their channel, cut from its beginning: those in the clear
  first, and behind them those that came encrypted, of which there are none before the upgrade. -/
  split : ∃ clear secret, s.letters = clear ++ secret ∧
    (∀ l ∈ clear, l.channel = .plain) ∧ (∀ l ∈ secret, l.channel = .secure) ∧
    clear.flatMap (·.raw) <+: delivered .plain s₀ actions ∧
    secret.flatMap (·.raw) <+: delivered .secure s₀ actions ∧
    (s.info.tls = false → secret = []) ∧
    (s.info.tls = true → clear.flatMap (·.raw) = delivered .plain s₀ actions)
  /-- What was delivered and is not yet cut stands in the source. -/
  reading : s.phase = .reading → ∃ source, s.source = some source ∧
    source.channel = firstChannel s.info.tls ∧
    s.taken source.channel ++ source.splitter.pending = delivered source.channel s₀ actions
  /-- A session that has ended takes nothing any more. -/
  ended : s.phase.isOver = true → ∀ {a s'}, s.step? a = some s' →
    s'.phase.isOver = true ∧ s'.letters = s.letters
  /-- Octets behind the request that stopped an upgrade are in no request. -/
  dropped : ∀ n, .failed (.pipelined n) ∈ s.events → s.phase.isOver = true ∧ 0 < n ∧
    ∃ rest, s.taken .plain ++ rest = delivered .plain s₀ actions ∧ rest.length = n

/-- When a session is marked as encrypted. -/
structure Marks (s₀ s : Session) : Prop where
  once : s.events.count .secured ≤ 1
  marked : s.info.tls = true ↔ s₀.info.tls = true ∨ .secured ∈ s.events
  handshake : s.info.tls = false → ∀ {a s'}, s.step? a = some s' → s'.info.tls = true →
    a = .endHandshake none ∧ ∃ pause, s.phase = .shaking pause
  lasting : s.info.tls = true → ∀ {a s'}, s.step? a = some s' → s'.info.tls = true

/-! ## What a move can do -/

/-- Outside the phase of reading a source is only taken away, or replaced after the handshake. -/
theorem source_of_move (hm : Move s a s') (hp : s.phase ≠ .reading) :
    s'.source = s.source ∨ s'.source = none ∨
      a = .endHandshake none ∧ s'.source = some (freshSource s.options .secure) := by
  cases hm with
  | receive hw => exact absurd (waitsFor_eq_some.mp hw).1 hp
  | undecodable hc => exact absurd hc.reading hp
  | unbind hc => exact absurd hc.reading hp
  | startTls hc => exact absurd hc.reading hp
  | dispatch hc => exact absurd hc.reading hp
  | upgraded hs => exact .inr (.inr ⟨rfl, rfl⟩)
  -- The others leave it as it is or take it away.
  | _ => first | exact .inl rfl | exact .inr (.inl rfl)

theorem tls_of_move (hm : Move s a s') : s'.info.tls = s.info.tls ∨
    a = .endHandshake none ∧ (∃ pause, s.phase = .shaking pause) ∧ s'.info.tls = true := by
  cases hm with
  | upgraded hs => exact .inr ⟨rfl, ⟨_, hs⟩, rfl⟩
  | _ => exact .inl rfl

theorem letters_eq_of_move (hm : Move s a s') (hp : s.phase ≠ .reading) :
    s'.letters = s.letters := by
  rcases letters_of_move hm with heq | ⟨_, _, _, _, hc, -⟩
  · exact heq
  · exact absurd hc.reading hp

/-- There is no way back from the end of the reading. -/
theorem isOver_of_move (hm : Move s a s') (hover : s.phase.isOver = true) :
    s'.phase.isOver = true := by
  have hne {p : Phase} (hp : s.phase = p) (hnot : p.isOver = false) : s'.phase.isOver = true := by
    rw [hp, hnot] at hover
    cases hover
  cases hm with
  | startTls hc => exact hne hc.reading rfl
  | declined hr => exact hne hr.serving rfl
  | noAcceptor hr => exact hne hr.serving rfl
  | sourceGone hr => exact hne hr.serving rfl
  | pauseQueued hr => exact hne hr.serving rfl
  | pauseOffered hr => exact hne hr.serving rfl
  | pauseAdmitted hp => exact hne hp rfl
  | takeWriter hp => exact hne hp rfl
  | upgraded hp => exact hne hp rfl
  | _ => first | exact hover | rfl

theorem reading_of_move (h : s.phase.isUpgrading = true) (hm : Move s a s')
    (hp : s'.phase = .reading) (hs : ∀ r, s.phase = .serving r → s.source ≠ none) :
    (∃ r i, s.Returned r i ∧ (i.startTlsAccepted = false ∨
      s.info.tls = false ∧ s.options.startTls.isNone = true)) ∨
    (∃ pause, s.phase = .shaking pause) ∧ a = .endHandshake none ∧ s'.info.tls = true := by
  have hne : s.phase ≠ .reading := by
    intro hreading
    rw [hreading] at h
    cases h
  cases hm with
  | declined hr ha => exact .inl ⟨_, _, hr, .inl ha⟩
  | noAcceptor hr ha ht ho => exact .inl ⟨_, _, hr, .inr ⟨ht, ho⟩⟩
  | sourceGone hr hnone => exact absurd hnone (hs _ hr.serving)
  | upgraded hshaking => exact .inr ⟨⟨_, hshaking⟩, rfl, rfl⟩
  | _ => first | exact absurd hp hne | cases hp

theorem agreed_of_move {r : Nat} (hp : s.phase = .serving r) (hm : Move s a s')
    (h : s'.phase.isHandingOver = true) : ∃ i source, s.Agreed r i ∧ s.source = some source ∧
      source.splitter.pending = [] := by
  have hne : ¬s.phase.isHandingOver = true := by
    rw [hp]
    nofun
  have hagreed {r' : Nat} {i : Invocation} {source : Source} (hr : s.Agreed r' i)
      (hs : s.source = some source) (hb : source.splitter.buffered = 0) :
      ∃ i source, s.Agreed r i ∧ s.source = some source ∧ source.splitter.pending = [] := by
    cases hp.symm.trans hr.serving
    exact ⟨i, source, hr, hs, List.eq_nil_of_length_eq_zero ((Splitter.length_pending _).trans hb)⟩
  cases hm with
  | pauseQueued hr hs hb => exact hagreed hr hs hb
  | pauseOffered hr hs hb => exact hagreed hr hs hb
  | pauseAdmitted hoffering => exact nomatch hp.symm.trans hoffering
  | takeWriter hpausing => exact nomatch hp.symm.trans hpausing
  | _ => first | exact absurd h hne | cases h

/-! ## What is decided -/

theorem step?_of_returned {r : Nat} {i : Invocation} (hr : s.Returned r i) :
    s.step? .read = some (s.decide i) := by
  show s.read = _
  rw [read, hr.serving]
  simp [awaitHandler, hr.invocation_eq, hr.returned]

theorem decide_of_agreed {r : Nat} {i : Invocation} {source : Source} (hr : s.Agreed r i)
    (hs : s.source = some source) : s.decide i = s.offerPause source := by
  simp [Session.decide, hr.accepted, secured, hr.plain, hr.acceptor, hs]

theorem offerPause_of_pending {source : Source} (hb : 0 < source.splitter.buffered) :
    s.offerPause source =
      { s with source := none }.leave (.failed (.pipelined source.splitter.buffered)) :=
  if_pos hb

/-- An open outbox lets the pause in or makes it wait for room. -/
theorem isHandingOver_offerPause {source : Source} (hb : source.splitter.buffered = 0)
    (hopen : s.output.outbox.closed = false) :
    (s.offerPause source).phase.isHandingOver = true ∧ (s.offerPause source).events = s.events ∧
      (s.offerPause source).source = none ∧ (s.offerPause source).letters = s.letters := by
  unfold offerPause
  dsimp only
  rw [if_neg (by omega)]
  split
  next => exact ⟨rfl, rfl, rfl, rfl⟩
  next => exact ⟨rfl, rfl, rfl, rfl⟩
  next ho =>
    have hreceipt : (s.output.outbox.send (.pause s.output.nextPause)).1 = .closed :=
      congrArg Prod.fst ho
    have hclosed := Outbox.closed_of_send (Prod.ext hreceipt rfl)
    exact nomatch hopen.symm.trans hclosed.1

theorem holds_of_parted {encrypted : Bool} {given : Channel → Octets}
    (h : Parted encrypted given s) : s.Holds where
  taking := by
    intro a s' hstep hne
    rcases letters_of_move (move_of_step? hstep) with heq | ⟨source, raw, splitter, m, hc, hd, hl, -, hp⟩
    · exact absurd heq hne
    · have hchannel := h.channel_of_source (hc.reading ▸ rfl) hc.source_eq
      exact ⟨source, raw, splitter, m, hc, hd, hchannel, hl, hp⟩
  latest := h.serving
  still := by
    intro hup a s' hstep
    have hm := move_of_step? hstep
    have hne : s.phase ≠ .reading := by
      intro hreading
      rw [hreading] at hup
      cases hup
    exact ⟨letters_eq_of_move hm hne, source_of_move hm hne⟩
  resumes := by
    intro hup a s' hstep hp
    refine reading_of_move hup (move_of_step? hstep) hp fun r hserving hnone => ?_
    obtain ⟨source, hsource, -⟩ := h.listening (hserving ▸ rfl)
    exact nomatch hnone.symm.trans hsource

theorem decides_of_parted {encrypted : Bool} {given : Channel → Octets}
    (h : Parted encrypted given s) (ht : s.Teardown) : s.Decides where
  onlyIf := fun hp hstep hhanding => agreed_of_move hp (move_of_step? hstep) hhanding
  agreed := by
    intro r i hr
    obtain ⟨source, hs, -⟩ := h.listening (hr.serving ▸ rfl)
    have hstep := step?_of_returned hr.toReturned
    rw [decide_of_agreed hr hs] at hstep
    by_cases hb : 0 < source.splitter.buffered
    · rw [offerPause_of_pending hb] at hstep
      refine ⟨source, _, hs, hstep, rfl, rfl, ?_, ?_⟩
      · intro hempty
        rw [← Splitter.length_pending, hempty] at hb
        cases hb
      · intro _
        rw [Splitter.length_pending]
        exact ⟨rfl, rfl⟩
    · replace hb := Nat.eq_zero_of_not_pos hb
      obtain ⟨hphase, hevents, hsource, hletters⟩ :=
        isHandingOver_offerPause hb (ht.outbox_open (hr.serving ▸ rfl))
      refine ⟨source, _, hs, hstep, hletters, hsource, fun _ => ⟨hphase, hevents⟩, ?_⟩
      intro hpending
      exact absurd (List.eq_nil_of_length_eq_zero ((Splitter.length_pending _).trans hb)) hpending
  again := by
    intro r i hr ha htls
    rw [step?_of_returned hr]
    simp [Session.decide, ha, secured, htls, leaveFor]
  declined := by
    intro r i hr ha
    rw [step?_of_returned hr]
    simp [Session.decide, ha]
  unable := by
    intro r i hr ha htls ho
    rw [step?_of_returned hr]
    simp [Session.decide, ha, secured, htls, ho]

/-- Requests that came encrypted stand behind those that came in the clear. -/
theorem eq_filter_append_filter {ls : List Letter} (h : ls.Pairwise fun earlier later =>
      earlier.channel = .secure → later.channel = .secure) :
    ls = ls.filter (·.channel = .plain) ++ ls.filter (·.channel = .secure) := by
  induction ls with
  | nil => rfl
  | cons l ls ih =>
      obtain ⟨hlater, hrest⟩ := List.pairwise_cons.mp h
      cases hc : l.channel with
      | plain =>
          rw [List.filter_cons_of_pos (by simp [hc]), List.filter_cons_of_neg (by simp [hc]),
            List.cons_append, ← ih hrest]
      | secure =>
          have hall : ∀ m ∈ ls, m.channel = .secure := fun m hm => hlater m hm hc
          have hnone : ls.filter (·.channel = .plain) = [] :=
            List.filter_eq_nil_iff.mpr fun m hm => by simp [hall m hm]
          have hself : ls.filter (·.channel = .secure) = ls :=
            List.filter_eq_self.mpr fun m hm => by simp [hall m hm]
          rw [List.filter_cons_of_neg (by simp [hc]), List.filter_cons_of_pos (by simp [hc]), hnone,
            hself, List.nil_append]

theorem keepsApart_of_parted {encrypted : Bool} {s₀ : Session} {actions : List Action}
    (h : Parted encrypted (fun c => delivered c s₀ actions) s) : KeepsApart s₀ actions s where
  split := by
    refine ⟨_, _, eq_filter_append_filter h.order, ?_, ?_, h.within .plain, h.within .secure, ?_,
      h.secret⟩
    · intro l hl
      exact of_decide_eq_true (List.mem_filter.mp hl).2
    · intro l hl
      exact of_decide_eq_true (List.mem_filter.mp hl).2
    · intro htls
      rw [List.filter_eq_nil_iff]
      intro l hl
      rw [(h.clear htls).2 l hl]
      decide
  reading := fun hp => h.listening (hp ▸ rfl)
  ended := by
    intro hover a s' hstep
    have hm := move_of_step? hstep
    refine ⟨isOver_of_move hm hover, letters_eq_of_move hm ?_⟩
    intro hreading
    rw [hreading] at hover
    cases hover
  dropped := h.pipelined

theorem marks_of_parted {given : Channel → Octets} {s₀ : Session}
    (h : Parted s₀.info.tls given s) : Marks s₀ s where
  once := by
    rw [h.secured]
    split <;> decide
  marked := by
    rw [← List.count_pos_iff, h.secured]
    cases henc : s₀.info.tls with
    | true => simp [(h.first henc).1]
    | false => cases htls : s.info.tls <;> simp
  handshake := by
    intro htls a s' hstep htls'
    rcases tls_of_move (move_of_step? hstep) with heq | ⟨ha, hp, -⟩
    · rw [htls', htls] at heq
      cases heq
    · exact ⟨ha, hp⟩
  lasting := by
    intro htls a s' hstep
    rcases tls_of_move (move_of_step? hstep) with heq | ⟨-, -, htls'⟩
    · rw [heq, htls]
    · exact htls'

theorem info_of_start? {options : Options} {info : SessionInfo} {stopping : Bool}
    (h : start? options info stopping = some s) : s.info = info := by
  obtain ⟨-, rfl⟩ := start?_eq_some h
  rfl

/-- **No octet that came in the clear outlives an upgrade.** Whatever arrives in whatever pieces,
whatever the handlers do and in whatever order the parties work, a session holds still while it is
being encrypted, is encrypted once at most and only with nothing left in the clear, and takes the
requests behind that from what has come encrypted. -/
theorem noClearOctets_of_run {options : Options} {info : SessionInfo} {stopping : Bool}
    {s₀ s : Session} {actions : List Action} (h₀ : start? options info stopping = some s₀)
    (hrun : s₀.run? actions = some s) :
    s.Holds ∧ s.Decides ∧ KeepsApart s₀ actions s ∧ Marks s₀ s := by
  have h := Parted.run h₀ hrun
  have hmarks : Parted s₀.info.tls (fun c => delivered c s₀ actions) s := by
    rw [info_of_start? h₀]
    exact h
  exact ⟨holds_of_parted h, decides_of_parted h (Teardown.run h₀ hrun), keepsApart_of_parted h,
    marks_of_parted hmarks⟩

/-- A client asks for encryption and, once it has it, for an entry to be deleted. -/
def upgradeActions : List Action :=
  [.receive (Message.encode { id := 1, op := .extendedRequest Message.startTlsName none }), .read,
    .handler 0 .acceptStartTls, .handler 0 .return, .read, .output .take, .read,
    .endHandshake none, .output .resume, .receive lateRequest.encode, .read]

/-- An upgrade succeeds, and the next request is one that came encrypted. -/
theorem noClearOctets_upgraded : ∃ s₀ s,
    start? ({ : Options}.withStartTls ⟨[], []⟩)
      ⟨1, .short ⟨192, 0, 2, 1⟩ 40000, .short ⟨192, 0, 2, 2⟩ 389, false, {}⟩ false = some s₀ ∧
    s₀.run? upgradeActions = some s ∧
    (s.Holds ∧ s.Decides ∧ KeepsApart s₀ upgradeActions s ∧ Marks s₀ s) ∧
    s.info.tls = true ∧ s.letters.map (·.channel) = [.plain, .secure] := by
  have hends : ((start? ({ : Options}.withStartTls ⟨[], []⟩)
      ⟨1, .short ⟨192, 0, 2, 1⟩ 40000, .short ⟨192, 0, 2, 2⟩ 389, false, {}⟩ false).bind
        (·.run? upgradeActions)).any (fun s => s.info.tls = true ∧
          s.letters.map (·.channel) = [.plain, .secure]) = true := by
    decide +kernel
  obtain ⟨s, hs, hend⟩ := (Option.any_eq_true _ _).mp hends
  obtain ⟨s₀, h₀, hrun⟩ := Option.bind_eq_some_iff.mp hs
  exact ⟨s₀, s, h₀, hrun, noClearOctets_of_run h₀ hrun, of_decide_eq_true hend⟩

end Directory.Session
