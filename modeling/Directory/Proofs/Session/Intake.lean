import Directory.Proofs.Entry
import Directory.Proofs.Output.Turn
import Directory.Proofs.Session.Move

/-!
# What a session takes in

A run brings octets in on the channel that its source reads from (`Session.delivered`), and the
requests were cut from these octets, channel by channel (`Session.taken`). `Parted` is the invariant:
the source holds what was delivered on its channel and is not yet cut; what was delivered in the clear
was cut to the last octet before the source is taken away for an upgrade, and so nothing of it is left
when octets arrive encrypted.
-/

namespace Directory

structure Letter where
  channel : Channel
  raw : Octets
  message : Message
  deriving DecidableEq, Repr

def Invocation.letter (i : Invocation) : Letter := ⟨i.channel, i.raw, i.message⟩

namespace Session

variable {s s' mid : Session} {a : Action} {c : Channel}

def letters (s : Session) : List Letter := s.requests.map Invocation.letter

/-- The octets of the requests that came on a channel. -/
def taken (s : Session) (c : Channel) : Octets :=
  (s.letters.filter (·.channel = c)).flatMap (·.raw)

def brings (s : Session) (a : Action) (c : Channel) : Octets :=
  match a, s.source with
  | .receive chunk, some source => if source.channel = c then chunk else []
  | _, _ => []

def delivered (c : Channel) (s : Session) : List Action → Octets
  | [] => []
  | a :: rest => s.brings a c ++ (s.step? a).elim [] fun s' => delivered c s' rest

theorem delivered_concat {actions : List Action} (h : s.run? actions = some mid) (a : Action) :
    delivered c s (actions ++ [a]) = delivered c s actions ++ mid.brings a c := by
  induction actions generalizing s with
  | nil =>
      cases h
      cases hs : mid.step? a <;> simp [delivered, hs]
  | cons b rest ih =>
      obtain ⟨next, hnext, hrest⟩ := Option.bind_eq_some_iff.mp h
      simp only [List.cons_append, delivered, hnext, Option.elim_some]
      rw [ih hrest, List.append_assoc]

theorem brings_of_not_receive (h : ∀ chunk, a ≠ .receive chunk) : s.brings a c = [] := by
  unfold brings
  split
  next chunk _ _ => exact absurd rfl (h chunk)
  next => rfl

/-- Its progress and the consent of its handler leave a request as it was cut. -/
theorem letters_modify {request : Nat} {f : Invocation → Invocation}
    (hs : s'.requests = s.requests.modify request f) (hf : ∀ i, (f i).letter = i.letter) :
    s'.letters = s.letters := by
  rw [letters, letters, hs]
  exact map_modify_of_eq hf ..

theorem letters_invoke (s : Session) (m : Message) (raw : Octets) (c : Channel) :
    (s.invoke m raw c).letters = s.letters ++ [⟨c, raw, m⟩] := by
  simp [letters, invoke, Invocation.letter]

theorem length_letters (s : Session) : s.letters.length = s.requests.length := List.length_map ..

/-- Only a cut adds a request, and after one that asks for encryption its handler is waited for. -/
theorem letters_of_move (hm : Move s a s') : s'.letters = s.letters ∨
    ∃ source raw splitter m, s.Cuts source raw splitter ∧ Message.decode raw = .ok m ∧
      s'.letters = s.letters ++ [⟨source.channel, raw, m⟩] ∧ s'.info = s.info ∧
      s'.phase = if m.isStartTls then .serving s.letters.length else .reading := by
  cases hm with
  | agree hi => exact .inl (letters_modify rfl fun _ => rfl)
  | handlerReturns hi hrun => exact .inl (letters_modify rfl fun _ => rfl)
  | handlerPanics hi hrun => exact .inl (letters_modify rfl fun _ => rfl)
  | startTls hc hd hu ht =>
      refine .inr ⟨_, _, _, _, hc, hd, letters_invoke .., rfl, ?_⟩
      rw [if_pos ht, length_letters]
  | dispatch hc hd hu ht =>
      refine .inr ⟨_, _, _, _, hc, hd, letters_invoke .., rfl, ?_⟩
      rw [ht]
      exact hc.reading
  | _ => exact .inl rfl

/-! ## Phases -/

/-- The phases in which the source has what the client sends. -/
def Phase.isListening : Phase → Bool
  | .reading | .serving _ => true
  | _ => false

def Phase.isHandingOver : Phase → Bool
  | .offering _ _ | .pausing _ | .shaking _ => true
  | _ => false

def Phase.isOver : Phase → Bool
  | .closing _ | .closed => true
  | _ => false

theorem Phase.isListening_of_isHandingOver {p : Phase} (h : p.isHandingOver = true) :
    p.isListening = false := by
  cases p <;> first | rfl | cases h

/-! ## The invariant -/

/-- Events that tell of no upgrade and of no octets behind a request for one. -/
def Ordinary (events : List Event) : Prop :=
  ∀ e ∈ events, e ≠ .secured ∧ ∀ n, e ≠ .failed (.pipelined n)

/-- What was delivered and what was taken, with the channel that is read from. -/
structure Parted (encrypted : Bool) (given : Channel → Octets) (s : Session) : Prop where
  /-- A connection encrypted from its first octet stays so. -/
  first : encrypted = true → s.info.tls = true ∧ given .plain = []
  clear : s.info.tls = false → given .secure = [] ∧ ∀ l ∈ s.letters, l.channel = .plain
  secret : s.info.tls = true → s.taken .plain = given .plain
  order : s.letters.Pairwise fun earlier later => earlier.channel = .secure → later.channel = .secure
  within : ∀ c, s.taken c <+: given c
  listening : s.phase.isListening = true → ∃ source, s.source = some source ∧
    source.channel = firstChannel s.info.tls ∧
    s.taken source.channel ++ source.splitter.pending = given source.channel
  handingOver : s.phase.isHandingOver = true →
    s.source = none ∧ s.info.tls = false ∧ s.taken .plain = given .plain
  serving : ∀ r, s.phase = .serving r → r + 1 = s.letters.length ∧
    ∃ l, s.letters[r]? = some l ∧ l.message.isStartTls = true
  secured : s.events.count .secured = if s.info.tls && !encrypted then 1 else 0
  pipelined : ∀ n, .failed (.pipelined n) ∈ s.events →
    s.phase.isOver = true ∧ 0 < n ∧ ∃ rest, s.taken .plain ++ rest = given .plain ∧ rest.length = n

namespace Parted

variable {encrypted : Bool} {given : Channel → Octets} {es : List Event}

theorem taken_congr (h : s'.letters = s.letters) (c : Channel) : s'.taken c = s.taken c := by
  rw [taken, taken, h]

theorem count_secured (he : s'.events = s.events ++ es) (hes : .secured ∉ es) :
    s'.events.count .secured = s.events.count .secured := by
  rw [he, List.count_append, List.count_eq_zero.mpr hes, Nat.add_zero]

theorem mem_pipelined (he : s'.events = s.events ++ es) (hq : Ordinary es) {n : Nat}
    (h : .failed (.pipelined n) ∈ s'.events) : .failed (.pipelined n) ∈ s.events := by
  rw [he] at h
  rcases List.mem_append.mp h with h | h
  · exact h
  · exact absurd rfl ((hq _ h).2 n)

/-- A step that takes nothing and changes no channel: what remains is what its phase asks for. -/
theorem goOn (h : Parted encrypted given s) (hl : s'.letters = s.letters)
    (ht : s'.info.tls = s.info.tls) (he : s'.events = s.events ++ es) (hq : Ordinary es)
    (hover : s.phase.isOver = true → s'.phase.isOver = true)
    (hlistening : s'.phase.isListening = true → s.phase.isListening = true ∧ s'.source = s.source)
    (hhanding : s'.phase.isHandingOver = true → s'.source = none ∧ (s.phase.isHandingOver = true ∨
      s.info.tls = false ∧ s.taken .plain = given .plain))
    (hserving : ∀ r, s'.phase = .serving r → s.phase = .serving r) :
    Parted encrypted given s' where
  first := fun henc => by
    rw [ht]
    exact h.first henc
  clear := by
    rw [ht, hl]
    exact h.clear
  secret := by
    rw [ht, taken_congr hl]
    exact h.secret
  order := by
    rw [hl]
    exact h.order
  within := fun c => by
    rw [taken_congr hl]
    exact h.within c
  listening := by
    intro hp
    obtain ⟨hp, hs⟩ := hlistening hp
    obtain ⟨source, hsource, hchannel, hpending⟩ := h.listening hp
    rw [hs, ht]
    refine ⟨source, hsource, hchannel, ?_⟩
    rw [taken_congr hl]
    exact hpending
  handingOver := by
    intro hp
    obtain ⟨hs, hp⟩ := hhanding hp
    rw [ht, taken_congr hl]
    rcases hp with hp | hp
    · exact ⟨hs, (h.handingOver hp).2⟩
    · exact ⟨hs, hp⟩
  serving := by
    intro r hp
    rw [hl]
    exact h.serving r (hserving r hp)
  secured := by
    rw [count_secured he fun hmem => (hq _ hmem).1 rfl, ht]
    exact h.secured
  pipelined := by
    intro n hmem
    obtain ⟨hp, hpos, hrest⟩ := h.pipelined n (mem_pipelined he hq hmem)
    rw [taken_congr hl]
    exact ⟨hover hp, hpos, hrest⟩

theorem stay (h : Parted encrypted given s) (hl : s'.letters = s.letters)
    (ht : s'.info.tls = s.info.tls) (hp : s'.phase = s.phase) (hs : s'.source = s.source)
    (he : s'.events = s.events ++ es) (hq : Ordinary es) : Parted encrypted given s' := by
  refine h.goOn hl ht he hq ?_ ?_ ?_ ?_
  · rw [hp]
    exact id
  · rw [hp]
    exact fun hlistening => ⟨hlistening, hs⟩
  · rw [hp]
    exact fun hhanding => ⟨hs.trans (h.handingOver hhanding).1, .inl hhanding⟩
  · rw [hp]
    exact fun _ => id

theorem frame (h : Parted encrypted given s) (hl : s'.letters = s.letters)
    (ht : s'.info.tls = s.info.tls) (hp : s'.phase = s.phase) (hs : s'.source = s.source)
    (he : s'.events = s.events) : Parted encrypted given s' :=
  h.stay hl ht hp hs (he.trans (List.append_nil _).symm) nofun

theorem leave (h : Parted encrypted given s) (hl : s'.letters = s.letters)
    (ht : s'.info.tls = s.info.tls) (hp : s'.phase.isOver = true)
    (he : s'.events = s.events ++ es) (hq : Ordinary es) : Parted encrypted given s' := by
  have hother : s'.phase.isListening = false ∧ s'.phase.isHandingOver = false ∧
      ∀ r, s'.phase ≠ .serving r := by
    cases hphase : s'.phase <;> rw [hphase] at hp <;> simp_all [Phase.isOver, Phase.isListening,
      Phase.isHandingOver]
  refine h.goOn hl ht he hq (fun _ => hp) ?_ ?_ ?_
  · intro hlistening
    rw [hother.1] at hlistening
    cases hlistening
  · intro hhanding
    rw [hother.2.1] at hhanding
    cases hhanding
  · intro r hserving
    exact absurd hserving (hother.2.2 r)

/-! ### What is read from the source -/

theorem channel_of_source (h : Parted encrypted given s) {source : Source}
    (hp : s.phase.isListening = true) (hs : s.source = some source) :
    source.channel = firstChannel s.info.tls := by
  obtain ⟨_, hsource, hchannel, -⟩ := h.listening hp
  cases hs.symm.trans hsource
  exact hchannel

theorem pending_of_source (h : Parted encrypted given s) {source : Source}
    (hp : s.phase.isListening = true) (hs : s.source = some source) :
    s.taken source.channel ++ source.splitter.pending = given source.channel := by
  obtain ⟨_, hsource, -, hpending⟩ := h.listening hp
  cases hs.symm.trans hsource
  exact hpending

theorem not_pipelined (h : Parted encrypted given s) (hp : s.phase.isOver = false) (n : Nat) :
    .failed (.pipelined n) ∉ s.events :=
  fun hmem => nomatch hp.symm.trans (h.pipelined n hmem).1

/-! ### One more request, on the channel that is read from -/

section

variable {l : Letter}

theorem taken_concat (hl : s'.letters = s.letters ++ [l]) (c : Channel) :
    s'.taken c = s.taken c ++ if l.channel = c then l.raw else [] := by
  rw [taken, hl, List.filter_append, List.flatMap_append]
  by_cases hc : l.channel = c <;> simp [taken, hc]

theorem clear_concat (h : Parted encrypted given s) (hc : l.channel = firstChannel s.info.tls)
    (htls : s.info.tls = false) : ∀ k ∈ s.letters ++ [l], k.channel = .plain := by
  intro k hmem
  rcases List.mem_append.mp hmem with hold | hnew
  · exact (h.clear htls).2 k hold
  · rw [List.mem_singleton.mp hnew, hc, htls]
    rfl

theorem secret_concat (h : Parted encrypted given s) (hl : s'.letters = s.letters ++ [l])
    (hc : l.channel = firstChannel s.info.tls) (htls : s.info.tls = true) :
    s'.taken .plain = given .plain := by
  have hother : l.channel ≠ .plain := by
    rw [hc, htls]
    decide
  rw [taken_concat hl, if_neg hother, List.append_nil]
  exact h.secret htls

/-- The new one comes last; had one before it come encrypted, so would it. -/
theorem order_concat (h : Parted encrypted given s) (hc : l.channel = firstChannel s.info.tls) :
    (s.letters ++ [l]).Pairwise fun earlier later =>
      earlier.channel = .secure → later.channel = .secure := by
  refine List.pairwise_append.mpr ⟨h.order, List.pairwise_singleton .., ?_⟩
  intro earlier hearlier later hlater hsecure
  rw [List.mem_singleton.mp hlater, hc]
  cases htls : s.info.tls with
  | true => rfl
  | false => exact nomatch hsecure.symm.trans ((h.clear htls).2 earlier hearlier)

theorem within_concat (h : Parted encrypted given s) (hl : s'.letters = s.letters ++ [l])
    (hgiven : s.taken l.channel ++ l.raw <+: given l.channel) (c : Channel) :
    s'.taken c <+: given c := by
  rw [taken_concat hl]
  by_cases hsame : l.channel = c
  · subst hsame
    rw [if_pos rfl]
    exact hgiven
  · rw [if_neg hsame, List.append_nil]
    exact h.within c

end

theorem cut (h : Parted encrypted given s) {source : Source} {raw : Octets} {splitter : Splitter}
    (hc : s.Cuts source raw splitter) {m : Message}
    (hl : s'.letters = s.letters ++ [⟨source.channel, raw, m⟩]) (ht : s'.info.tls = s.info.tls)
    (hs : s'.source = some { source with splitter }) (he : s'.events = s.events)
    (hp : s'.phase = if m.isStartTls then .serving s.letters.length else .reading) :
    Parted encrypted given s' := by
  have hreading : s.phase.isListening = true := hc.reading ▸ rfl
  have hchannel := h.channel_of_source hreading hc.source_eq
  have hgiven : s.taken source.channel ++ raw ++ splitter.pending = given source.channel := by
    rw [List.append_assoc, Splitter.pending_of_next hc.next_eq]
    exact h.pending_of_source hreading hc.source_eq
  refine ⟨?_, ?_, ?_, ?_, h.within_concat hl ⟨_, hgiven⟩, ?_, ?_, ?_, ?_, ?_⟩
  · rw [ht]
    exact h.first
  · rw [ht, hl]
    exact fun htls => ⟨(h.clear htls).1, h.clear_concat hchannel htls⟩
  · rw [ht]
    exact h.secret_concat hl hchannel
  · rw [hl]
    exact h.order_concat hchannel
  · intro _
    refine ⟨_, hs, hchannel.trans (by rw [ht]), ?_⟩
    rw [taken_concat hl, if_pos rfl]
    exact hgiven
  · intro hhanding
    rw [hp] at hhanding
    split at hhanding <;> cases hhanding
  · intro r hserving
    rw [hp] at hserving
    split at hserving
    next hstart =>
      cases hserving
      rw [hl]
      exact ⟨by simp, _, List.getElem?_concat_length, hstart⟩
    next => cases hserving
  · rw [he, ht]
    exact h.secured
  · intro n hmem
    rw [he] at hmem
    exact absurd hmem (h.not_pipelined (hc.reading ▸ rfl) n)

theorem receive (h : Parted encrypted given s) {chunk : Octets} {source : Source}
    (hw : s.waitsFor = some source) :
    Parted encrypted (fun c => given c ++ s.brings (.receive chunk) c)
      { s with source := some { source with splitter := source.splitter.receive chunk } } := by
  obtain ⟨hp, -, hs, -⟩ := waitsFor_eq_some.mp hw
  have hreading : s.phase.isListening = true := hp ▸ rfl
  have hchannel := h.channel_of_source hreading hs
  have hbrings (c : Channel) :
      s.brings (.receive chunk) c = if source.channel = c then chunk else [] := by
    simp only [brings, hs]
  have hplain (htls : s.info.tls = true) : given .plain ++ s.brings (.receive chunk) .plain =
      given .plain := by
    rw [hbrings, hchannel, htls, if_neg (by decide), List.append_nil]
  refine ⟨?_, ?_, ?_, h.order, ?_, ?_, ?_, h.serving, h.secured, ?_⟩
  · intro henc
    obtain ⟨htls, hnone⟩ := h.first henc
    exact ⟨htls, (hplain htls).trans hnone⟩
  · intro htls
    refine ⟨?_, (h.clear htls).2⟩
    have htls' : s.info.tls = false := htls
    rw [hbrings, hchannel, htls', if_neg (by decide), List.append_nil]
    exact (h.clear htls).1
  · intro htls
    exact (h.secret htls).trans (hplain htls).symm
  · intro c
    exact (h.within c).trans (List.prefix_append ..)
  · intro _
    refine ⟨_, rfl, hchannel, ?_⟩
    show s.taken source.channel ++ (source.splitter.receive chunk).pending = _
    rw [Splitter.pending_receive, ← List.append_assoc, h.pending_of_source hreading hs, hbrings,
      if_pos rfl]
  · exact fun hhanding => nomatch (Phase.isListening_of_isHandingOver hhanding).symm.trans hreading
  · exact fun n hmem => absurd hmem (h.not_pipelined (hp ▸ rfl) n)

/-- Octets have arrived behind the request for encryption, and the session ends. -/
theorem leavePipelined (h : Parted encrypted given s) {r : Nat} {source : Source}
    (hp : s.phase = .serving r) (htls : s.info.tls = false) (hs : s.source = some source)
    (hb : 0 < source.splitter.buffered) :
    Parted encrypted given
      ({ s with source := none }.leave (.failed (.pipelined source.splitter.buffered))) := by
  have hpending := h.pending_of_source (hp ▸ rfl) hs
  rw [h.channel_of_source (hp ▸ rfl) hs, htls] at hpending
  refine ⟨h.first, h.clear, h.secret, h.order, h.within, nofun, nofun, nofun, ?_, ?_⟩
  · show (s.events ++ [_]).count Event.secured = if s.info.tls && !encrypted then 1 else 0
    rw [List.count_append, h.secured]
    simp
  · intro n hmem
    refine ⟨rfl, ?_⟩
    rcases List.mem_append.mp hmem with hold | hnew
    · exact absurd hold (h.not_pipelined (hp ▸ rfl) n)
    · cases List.mem_singleton.mp hnew
      exact ⟨hb, _, hpending, Splitter.length_pending _⟩

theorem handOver (h : Parted encrypted given s) {r : Nat} {i : Invocation} {source : Source}
    (hr : s.Agreed r i) (hs : s.source = some source) (hb : source.splitter.buffered = 0)
    (hl : s'.letters = s.letters) (ht : s'.info = s.info) (hnone : s'.source = none)
    (hp : s'.phase.isHandingOver = true) (he : s'.events = s.events) :
    Parted encrypted given s' := by
  have hempty : source.splitter.pending = [] :=
    List.eq_nil_of_length_eq_zero ((Splitter.length_pending _).trans hb)
  have hpending := h.pending_of_source (hr.serving ▸ rfl) hs
  rw [hempty, List.append_nil, h.channel_of_source (hr.serving ▸ rfl) hs, hr.plain] at hpending
  refine h.goOn hl (by rw [ht]) (he.trans (List.append_nil _).symm) nofun (hr.serving ▸ nofun) ?_
    (fun _ => ⟨hnone, .inr ⟨hr.plain, hpending⟩⟩) ?_
  · intro hlistening
    rw [Phase.isListening_of_isHandingOver hp] at hlistening
    cases hlistening
  · intro r hserving
    rw [hserving] at hp
    cases hp

theorem upgrade (h : Parted encrypted given s) {pause : Nat} (hp : s.phase = .shaking pause) :
    Parted encrypted given (s.upgrade pause) := by
  obtain ⟨-, htls, hgiven⟩ := h.handingOver (hp ▸ rfl)
  have henc : encrypted = false := by
    cases henc : encrypted with
    | false => rfl
    | true => exact nomatch htls.symm.trans (h.first henc).1
  refine ⟨fun henc => ⟨rfl, (h.first henc).2⟩, nofun, fun _ => hgiven, h.order, h.within, ?_, nofun,
    nofun, ?_, ?_⟩
  · intro _
    refine ⟨_, rfl, rfl, ?_⟩
    obtain ⟨hnone, hall⟩ := h.clear htls
    have htaken : s.taken .secure = [] := by
      rw [taken, List.filter_eq_nil_iff.mpr fun l hl => by simp [hall l hl]]
      rfl
    show s.taken .secure ++ [] = given .secure
    rw [htaken, hnone]
    rfl
  · show (s.events ++ [Event.secured]).count Event.secured = _
    rw [List.count_append, h.secured, htls, henc]
    rfl
  · intro n hmem
    rcases List.mem_append.mp hmem with hold | hnew
    · exact absurd hold (h.not_pipelined (hp ▸ rfl) n)
    · cases List.mem_singleton.mp hnew

theorem ordinary_of_turn {o o' : Output} {act : Output.Act} (ht : Output.Turn o act es o') :
    Ordinary es := by
  cases ht <;> simp [Ordinary]

theorem ordinary_sweepReport (s : Session) : Ordinary s.sweepReport := by
  unfold sweepReport
  split <;> simp [Ordinary]

/-- **Every move keeps the invariant**; octets come in with one of them only. -/
theorem move (h : Parted encrypted given s) (hm : Move s a s') (ha : ∀ chunk, a ≠ .receive chunk) :
    Parted encrypted given s' := by
  cases hm with
  -- Handlers, and tasks that outlive them
  | write hi => exact h.frame rfl rfl rfl rfl rfl
  | abandonRequest hi => exact h.frame rfl rfl rfl rfl rfl
  | popReason hi => exact h.frame rfl rfl rfl rfl rfl
  | setAcl hi => exact h.frame rfl rfl rfl rfl rfl
  | agree hi => exact h.frame (letters_modify rfl fun _ => rfl) rfl rfl rfl rfl
  | handlerReturns hi hrun => exact h.frame (letters_modify rfl fun _ => rfl) rfl rfl rfl rfl
  | handlerPanics hi hrun => exact h.frame (letters_modify rfl fun _ => rfl) rfl rfl rfl rfl
  | stop => exact h.frame rfl rfl rfl rfl rfl
  -- The reading, while it waits for octets
  | receive hw => exact absurd rfl (ha _)
  | clientClosed hw => exact h.leave rfl rfl rfl rfl (by simp [Ordinary])
  | cutShort hw => exact h.leave rfl rfl rfl rfl (by simp [Ordinary])
  | loseConnection hw => exact h.leave rfl rfl rfl rfl (by simp [Ordinary])
  | expire hl hw => exact h.leave rfl rfl rfl rfl (by simp [Ordinary])
  -- The reading, when it goes on
  | interrupt hp => exact h.leave rfl rfl rfl rfl (by simp [Ordinary])
  | noSource hp => exact h.leave rfl rfl rfl (List.append_nil _).symm nofun
  | refuse hp => exact h.leave rfl rfl rfl rfl (by simp [Ordinary])
  | undecodable hc => exact h.leave rfl rfl rfl rfl (by simp [Ordinary])
  | unbind hc => exact h.leave rfl rfl rfl rfl (by simp [Ordinary])
  | startTls hc hd hu ht =>
      refine h.cut hc (letters_invoke ..) rfl rfl rfl ?_
      rw [if_pos ht, length_letters]
  | dispatch hc hd hu ht =>
      refine h.cut hc (letters_invoke ..) rfl rfl rfl ?_
      rw [ht]
      exact hc.reading
  -- The reading, after a request to encrypt the connection
  | servantPanicked hp => exact h.leave rfl rfl rfl rfl (by simp [Ordinary])
  | declined hr =>
      exact h.goOn rfl rfl rfl (by simp [Ordinary]) (hr.serving ▸ nofun)
        (fun _ => ⟨hr.serving ▸ rfl, rfl⟩) nofun nofun
  | alreadySecured hr => exact h.leave rfl rfl rfl rfl (by simp [Ordinary])
  | noAcceptor hr =>
      exact h.goOn rfl rfl rfl (by simp [Ordinary]) (hr.serving ▸ nofun)
        (fun _ => ⟨hr.serving ▸ rfl, rfl⟩) nofun nofun
  | sourceGone hr hs =>
      obtain ⟨_, hsource, -⟩ := h.listening (hr.serving ▸ rfl)
      exact nomatch hs.symm.trans hsource
  | pipelined hr hs hb => exact h.leavePipelined hr.serving hr.plain hs hb
  | pauseQueued hr hs hb ho => exact h.handOver hr hs hb rfl rfl rfl rfl rfl
  | pauseOffered hr hs hb ho => exact h.handOver hr hs hb rfl rfl rfl rfl rfl
  | pauseRefused hr hs hb ho => exact h.leave rfl rfl rfl rfl (by simp [Ordinary])
  | pauseAdmitted hp =>
      have hhanding : s.phase.isHandingOver = true := hp ▸ rfl
      exact h.goOn rfl rfl (List.append_nil _).symm nofun (hp ▸ nofun) nofun
        (fun _ => ⟨(h.handingOver hhanding).1, .inl hhanding⟩) nofun
  | pauseTurnedAway hp => exact h.leave rfl rfl rfl rfl (by simp [Ordinary])
  | writerMissing hp => exact h.leave rfl rfl rfl rfl (by simp [Ordinary])
  | writerSecure hp => exact h.leave rfl rfl rfl rfl (by simp [Ordinary])
  | takeWriter hp =>
      have hhanding : s.phase.isHandingOver = true := hp ▸ rfl
      exact h.goOn rfl rfl (List.append_nil _).symm nofun (hp ▸ nofun) nofun
        (fun _ => ⟨(h.handingOver hhanding).1, .inl hhanding⟩) nofun
  | pauseLost hp => exact h.leave rfl rfl rfl rfl (by simp [Ordinary])
  | giveUp hp => exact h.leave rfl rfl rfl rfl (by simp [Ordinary])
  | upgraded hp => exact h.upgrade hp
  | @handshakeFails pause cause hp =>
      cases cause <;> exact h.leave rfl rfl rfl rfl (by simp [Ordinary])
  -- The watcher
  | silenced hw => exact h.frame rfl rfl rfl rfl rfl
  | noticeQueued hw => exact h.frame rfl rfl rfl rfl rfl
  | noticeOffered hw => exact h.frame rfl rfl rfl rfl rfl
  | noticeRefused hw => exact h.stay rfl rfl rfl rfl rfl (by simp [Ordinary])
  | noticeAdmitted hw => exact h.frame rfl rfl rfl rfl rfl
  | noticeTurnedAway hw => exact h.stay rfl rfl rfl rfl rfl (by simp [Ordinary])
  | watcherInterrupts hw => exact h.frame rfl rfl rfl rfl rfl
  -- Closing down
  | silence hp => exact h.leave rfl rfl rfl (List.append_nil _).symm nofun
  | stopReading hp => exact h.leave rfl rfl rfl (List.append_nil _).symm nofun
  | sweep hp => exact h.leave rfl rfl rfl rfl (ordinary_sweepReport s)
  | join hp => exact h.leave rfl rfl rfl (List.append_nil _).symm nofun
  | closeQueued hp => exact h.leave rfl rfl rfl (List.append_nil _).symm nofun
  | closeOffered hp => exact h.leave rfl rfl rfl (List.append_nil _).symm nofun
  | closeRefused hp => exact h.leave rfl rfl rfl (List.append_nil _).symm nofun
  | closeAdmitted hp => exact h.leave rfl rfl rfl (List.append_nil _).symm nofun
  | drained hp => exact h.leave rfl rfl rfl (List.append_nil _).symm nofun
  | hangUp hp => exact h.leave rfl rfl rfl rfl (by simp [Ordinary])
  -- The output
  | emit ho => exact h.stay rfl rfl rfl rfl rfl (ordinary_of_turn (Output.turn_of_step? ho))

theorem start {options : Options} {info : SessionInfo} {stopping : Bool}
    (h : start? options info stopping = some s) : Parted info.tls (fun _ => []) s := by
  obtain ⟨-, rfl⟩ := start?_eq_some h
  refine ⟨fun henc => ⟨henc, rfl⟩, fun _ => ⟨rfl, nofun⟩, fun _ => rfl, .nil,
    fun _ => List.prefix_refl _, fun _ => ⟨_, rfl, rfl, rfl⟩, nofun, nofun, ?_, nofun⟩
  cases info.tls <;> rfl

theorem run {options : Options} {info : SessionInfo} {stopping : Bool} {s₀ : Session}
    {actions : List Action} (h₀ : start? options info stopping = some s₀)
    (h : s₀.run? actions = some s) :
    Parted info.tls (fun c => delivered c s₀ actions) s := by
  refine run?_induction (motive := fun actions s =>
    Parted info.tls (fun c => delivered c s₀ actions) s) (start h₀) ?_ h
  intro actions mid a next hmid hparted hm
  have hgiven : (fun c => delivered c s₀ (actions ++ [a])) =
      fun c => delivered c s₀ actions ++ mid.brings a c :=
    funext fun c => delivered_concat hmid a
  rw [hgiven]
  by_cases ha : ∃ chunk, a = .receive chunk
  · obtain ⟨chunk, rfl⟩ := ha
    cases hm with
    | receive hw => exact hparted.receive hw
  · have ha' : ∀ chunk, a ≠ .receive chunk := fun chunk heq => ha ⟨chunk, heq⟩
    simp only [brings_of_not_receive ha', List.append_nil]
    exact hparted.move hm ha'

end Parted

end Session

end Directory
