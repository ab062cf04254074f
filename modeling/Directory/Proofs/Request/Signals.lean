import Directory.Proofs.Request.Acts
import Directory.Proofs.Request.Reasons

/-!
# Signals to many requests

Reasons are posted to a request directly, by its identifier, and by the sweep of a session; handlers
ask for them, and hand out tokens. Which of the steps of a script do something to one request, and what,
is read off the script alone (`acts`): the posts off the ledger, and to whom a token belongs off the
steps that have handed it out (`owners`). A request stands as its own acts leave it and as no other
request has any part in (`Signals`).

Tokens are numbered across all requests, so a script has to hand them out for requests that exist
(`HandsOutKnown`); a token of nobody would pass for the first one of a request that comes later.
-/

namespace Directory.Rehearsal.Roster

open Directory.Cancellation (Act Posted Revoked accepted popped exists_split_concat)

/-! ## What a script does to one request -/

def Step.handsOut? : Step → Option Nat
  | .handOut owner => some owner
  | _ => none

def owners (script : List Step) : List Nat := script.filterMap Step.handsOut?

/-- Which of the tokens of its request a token is. -/
def place (script : List Step) (token request : Nat) : Nat :=
  ((owners script).take token).count request

/-- What a step does to a request when it comes after a script. -/
def actsOn (script : List Step) (request : Nat) (a : Step) : List Act :=
  if request < (Ledger.after script).ids.length then
    match a with
    | .pop other => if other = request then [.pop] else []
    | .handOut other => if other = request then [.handOut] else []
    | .cancelToken token =>
        if (owners script)[token]? = some request then [.cancelToken (place script token request)]
        else []
    | a => (((Ledger.after script).posts a).filter (·.1 = request)).map (.post ·.2)
  else []

def acts (script : List Step) (request : Nat) : List Act :=
  (List.range script.length).flatMap fun number =>
    script[number]?.elim [] (actsOn (script.take number) request)

/-- A token is cancelled by itself in a script, after it was handed out. -/
def CancelsToken (script : List Step) (token : Nat) : Prop :=
  ∃ before after, script = before ++ .cancelToken token :: after ∧ token < (owners before).length

/-- Every token is handed out of a request that exists. -/
def HandsOutKnown (script : List Step) : Prop :=
  ∀ number < script.length, ∀ request ∈ script[number]?.bind Step.handsOut?,
    request < (Ledger.after (script.take number)).ids.length

instance (script : List Step) : Decidable (HandsOutKnown script) :=
  inferInstanceAs (Decidable (∀ number < script.length,
    ∀ request ∈ script[number]?.bind Step.handsOut?, _))

variable {s : Stage} {script : List Step} {a : Step} {request token other : Nat}

theorem Ledger.after_concat : Ledger.after (script ++ [a]) = (Ledger.after script).step a := by
  rw [Ledger.after, List.foldl_append]
  rfl

theorem Stage.after_concat : Stage.after (script ++ [a]) = ((Stage.after script).step a).2 := by
  rw [Stage.after, List.foldl_append]
  rfl

theorem owners_concat : owners (script ++ [a]) = owners script ++ a.handsOut?.toList := by
  rw [owners, List.filterMap_append]
  cases h : a.handsOut? <;> simp [owners, h]

theorem acts_concat : acts (script ++ [a]) request =
    acts script request ++ actsOn script request a := by
  have hbefore : (List.range script.length).flatMap (fun number =>
      (script ++ [a])[number]?.elim [] (actsOn ((script ++ [a]).take number) request)) =
      acts script request := by
    refine List.flatMap_congr fun number hnumber => ?_
    have hlt := List.mem_range.mp hnumber
    rw [List.getElem?_append_left hlt, List.take_append_of_le_length (Nat.le_of_lt hlt)]
  rw [acts, List.length_append, List.length_singleton, List.range_succ, List.flatMap_append, hbefore,
    List.flatMap_singleton, List.getElem?_concat_length, List.take_left]
  rfl

theorem cancelsToken_concat : CancelsToken (script ++ [a]) token ↔
    CancelsToken script token ∨ a = .cancelToken token ∧ token < (owners script).length :=
  exists_split_concat

theorem CancelsToken.lt (h : CancelsToken script token) : token < (owners script).length := by
  obtain ⟨before, after, rfl, hlt⟩ := h
  rw [owners, List.filterMap_append, List.length_append]
  exact Nat.lt_add_right _ hlt

theorem handsOutKnown_concat : HandsOutKnown (script ++ [a]) ↔ HandsOutKnown script ∧
    ∀ owner, a = .handOut owner → owner < (Ledger.after script).ids.length := by
  have hbefore {number : Nat} (hlt : number < script.length) :
      (script ++ [a])[number]? = script[number]? ∧ (script ++ [a]).take number = script.take number :=
    ⟨List.getElem?_append_left hlt, List.take_append_of_le_length (Nat.le_of_lt hlt)⟩
  have hlast : (script ++ [a])[script.length]? = some a ∧
      (script ++ [a]).take script.length = script :=
    ⟨List.getElem?_concat_length, List.take_left⟩
  constructor
  · refine fun h => ⟨fun number hlt request hmem => ?_, ?_⟩
    · have hknown := h number (by simp; omega) request
      rw [(hbefore hlt).1, (hbefore hlt).2] at hknown
      exact hknown hmem
    · rintro owner rfl
      have hknown := h script.length (by simp) owner
      rw [hlast.1, hlast.2] at hknown
      exact hknown (Option.mem_def.mpr rfl)
  · rintro ⟨h, ha⟩ number hlt request hmem
    rcases Nat.lt_or_ge number script.length with hold | hnew
    · rw [(hbefore hold).1] at hmem
      rw [(hbefore hold).2]
      exact h number hold request hmem
    · obtain rfl : number = script.length := by
        rw [List.length_append, List.length_singleton] at hlt
        omega
      rw [hlast.1, Option.bind_some] at hmem
      rw [hlast.2]
      cases a with
      | handOut owner =>
          cases Option.mem_def.mp hmem
          exact ha _ rfl
      | _ => cases hmem

theorem HandsOutKnown.cancelToken (h : HandsOutKnown script) (token : Nat) :
    HandsOutKnown (script ++ [.cancelToken token]) := by
  refine handsOutKnown_concat.mpr ⟨h, fun owner heq => ?_⟩
  cases heq

theorem request_or_ids_step (l : Ledger) (a : Step) :
    (∃ message session, a = .request message session) ∨ (l.step a).ids = l.ids :=
  or_iff_not_imp_left.mpr fun hnot =>
    Ledger.ids_step fun message session heq => hnot ⟨message, session, heq⟩

theorem ids_step_le (l : Ledger) (a : Step) : l.ids.length ≤ (l.step a).ids.length := by
  rcases request_or_ids_step l a with ⟨message, session, rfl⟩ | hids
  · rw [Ledger.step, List.length_append]
    exact Nat.le_add_right ..
  · exact Nat.le_of_eq (congrArg List.length hids.symm)

theorem actsOn_of_le (h : (Ledger.after script).ids.length ≤ request) :
    actsOn script request a = [] := if_neg (Nat.not_lt.mpr h)

/-- Nothing is done to a request before it exists. -/
theorem acts_of_le (h : (Ledger.after script).ids.length ≤ request) : acts script request = [] := by
  induction script using List.reverseRecOn with
  | nil => rfl
  | append_singleton script a ih =>
      rw [Ledger.after_concat] at h
      have hle := Nat.le_trans (ids_step_le _ a) h
      rw [acts_concat, ih hle, actsOn_of_le hle, List.nil_append]

/-! ## Places of tokens -/

theorem count_take_lt {xs : List Nat} {i j x : Nat} (hi : xs[i]? = some x) (hlt : i < j) :
    (xs.take i).count x < (xs.take j).count x := by
  have hnext : (xs.take (i + 1)).count x = (xs.take i).count x + 1 := by
    rw [List.take_add_one, hi, List.count_append]
    simp
  have hle := (List.take_prefix_take_left (l := xs) (show i + 1 ≤ j from hlt)).sublist.count_le x
  omega

theorem place_lt (h : (owners script)[token]? = some request) :
    place script token request < (owners script).count request := by
  obtain ⟨hlt, -⟩ := List.getElem?_eq_some_iff.mp h
  have hcount := count_take_lt h hlt
  rwa [List.take_length] at hcount

/-- No two tokens of a request have one place. -/
theorem place_inj (h : (owners script)[token]? = some request)
    (hother : (owners script)[other]? = some request) :
    place script other request = place script token request ↔ other = token := by
  refine ⟨fun heq => ?_, fun heq => heq ▸ rfl⟩
  rcases Nat.lt_trichotomy other token with hlt | hsame | hgt
  · exact absurd heq (Nat.ne_of_lt (count_take_lt hother hlt))
  · exact hsame
  · exact absurd heq (Nat.ne_of_gt (count_take_lt h hgt))

theorem place_concat (h : token ≤ (owners script).length) :
    place (script ++ [a]) token request = place script token request := by
  rw [place, owners_concat, List.take_append_of_le_length h, place]

/-! ## What a step does to the cancellations -/

theorem getElem?_postEach (cs : Cancellations) (posts : List (Nat × Reason)) (request : Nat) :
    (postEach cs posts)[request]? = cs[request]?.map fun c =>
      ((posts.filter (·.1 = request)).map (Act.post ·.2)).foldl Cancellation.undergo c := by
  induction posts generalizing cs with
  | nil => simp [postEach]
  | cons first rest ih =>
      show (postEach (cs.post first.1 first.2) rest)[request]? = _
      rw [ih, Cancellations.post, List.getElem?_modify, Option.map_eq_map, Option.map_map]
      congr 1
      funext c
      by_cases hfirst : first.1 = request <;> simp [hfirst, Cancellation.undergo]

theorem getElem?_undergo (cs : Cancellations) (other request : Nat) (act : Act) :
    (cs.modify other (·.undergo act))[request]? = cs[request]?.map fun c =>
      (if other = request then [act] else []).foldl Cancellation.undergo c := by
  rw [List.getElem?_modify, Option.map_eq_map]
  congr 1
  funext c
  by_cases hother : other = request <;> simp [hother]

/-- What a stage has of the tokens and of the requests. -/
structure Stage.Follows (s : Stage) (script : List Step) : Prop where
  length : s.cancellations.length = (Ledger.after script).ids.length
  own : ∀ {request}, request < (Ledger.after script).ids.length →
    s.cancellations[request]? = some (.after (acts script request))
  tokens : ∀ token, s.tokens[token]? =
    (owners script)[token]?.map fun request => (request, place script token request)
  known : ∀ request ∈ owners script, request < (Ledger.after script).ids.length
  counted : ∀ request, (acts script request).count .handOut = (owners script).count request

theorem cancellation_of_step (hm : s.Mirrors (Ledger.after script)) (h : s.Follows script)
    (hlt : request < (Ledger.after script).ids.length) (a : Step) :
    (s.step a).2.cancellations[request]? = s.cancellations[request]?.map fun c =>
      (actsOn script request a).foldl Cancellation.undergo c := by
  have hacts : actsOn script request a = _ := if_pos hlt
  rw [hacts]
  cases hl : (Ledger.after script).answer? a with
  | some answer =>
      obtain ⟨reply, posts⟩ := answer
      rw [(hm.answers hl).2, getElem?_postEach, ← Ledger.posts_of_answer? hl]
      cases a with
      | pop | handOut | cancelToken => cases hl
      | _ => rfl
  | none =>
      cases a with
      | post other reason => exact getElem?_postEach s.cancellations [(other, reason)] request
      | pop other => exact getElem?_undergo s.cancellations other request .pop
      | handOut other => exact getElem?_undergo s.cancellations other request .handOut
      | cancelToken token =>
          simp only [Stage.step, h.tokens token]
          cases howner : (owners script)[token]? with
          | none => exact Option.map_id'.symm
          | some owner =>
              rw [Option.map_some]
              refine (getElem?_undergo s.cancellations owner request
                (.cancelToken (place script token owner))).trans ?_
              by_cases hsame : owner = request
              · subst hsame
                simp
              · simp [hsame]
      | request message session =>
          have hold : request < s.cancellations.length := h.length ▸ hlt
          refine (List.getElem?_append_left hold).trans Option.map_id'.symm
      | openSession info =>
          simp only [Stage.step, Stage.asOwner]
          split <;> exact Option.map_id'.symm
      | cloneSession session | sessionInfo session | requestInfo other | guarded guard =>
          simp only [Stage.step]
          split <;> exact Option.map_id'.symm
      | markTls | setAcl | isCancelled | acceptStartTls => exact Option.map_id'.symm
      | _ => cases hl

theorem tokens_of_step (s : Stage) (a : Step) : (s.step a).2.tokens = s.tokens ++
    a.handsOut?.toList.map fun request =>
      (request, s.cancellations[request]?.elim 0 (·.tokens.length)) := by
  cases a with
  | handOut request => rfl
  | register | abandon =>
      simp only [Stage.step, Stage.asOwner]
      split
      · split <;> exact (List.append_nil _).symm
      · exact (List.append_nil _).symm
  | openSession | latest | cancelAll | isEmpty =>
      simp only [Stage.step, Stage.asOwner]
      split <;> exact (List.append_nil _).symm
  | cloneSession | sessionInfo | requestInfo | guarded | cancelToken =>
      simp only [Stage.step]
      split <;> exact (List.append_nil _).symm
  | sessionAbandon | abandonOther =>
      simp only [Stage.step, Stage.abandonBySession]
      split <;> exact (List.append_nil _).symm
  | _ => exact (List.append_nil _).symm

theorem count_actsOn
    (hknown : ∀ owner, a = .handOut owner → owner < (Ledger.after script).ids.length) :
    (actsOn script request a).count .handOut = a.handsOut?.toList.count request := by
  by_cases hlt : request < (Ledger.after script).ids.length
  · have hacts : actsOn script request a = _ := if_pos hlt
    rw [hacts]
    cases a with
    | pop other =>
        show (if other = request then [Act.pop] else []).count .handOut = 0
        split <;> rfl
    | handOut other =>
        show (if other = request then [Act.handOut] else []).count .handOut = [other].count request
        by_cases hother : other = request <;> simp [hother]
    | cancelToken token =>
        show (if (owners script)[token]? = some request then
          [Act.cancelToken (place script token request)] else []).count .handOut = 0
        split <;> rfl
    | _ =>
        refine List.count_eq_zero.mpr fun hmem => ?_
        obtain ⟨_, -, hpost⟩ := List.mem_map.mp hmem
        cases hpost
  · rw [actsOn_of_le (Nat.le_of_not_lt hlt)]
    cases a with
    | handOut other =>
        have hne : other ≠ request := fun heq => hlt (heq ▸ hknown other rfl)
        show 0 = [other].count request
        simp [hne]
    | _ => rfl

theorem Stage.Follows.length_tokens (h : s.Follows script) :
    s.tokens.length = (owners script).length := by
  apply Nat.le_antisymm
  · rw [← List.getElem?_eq_none_iff, h.tokens, List.getElem?_eq_none (Nat.le_refl _)]
    rfl
  · rw [← List.getElem?_eq_none_iff, ← Option.map_eq_none_iff, ← h.tokens]
    exact List.getElem?_eq_none (Nat.le_refl _)

/-- A request stands as its acts leave it, also one that comes into being in this step. -/
theorem Stage.Follows.own_step (hm : s.Mirrors (Ledger.after script)) (h : s.Follows script)
    (hlt : request < (Ledger.after (script ++ [a])).ids.length) :
    (s.step a).2.cancellations[request]? = some (.after (acts (script ++ [a]) request)) := by
  by_cases hold : request < (Ledger.after script).ids.length
  · rw [cancellation_of_step hm h hold, h.own hold, acts_concat, Cancellation.after_append,
      Option.map_some]
  · have hle := Nat.le_of_not_lt hold
    rw [acts_concat, acts_of_le hle, actsOn_of_le hle]
    rw [Ledger.after_concat] at hlt
    rcases request_or_ids_step (Ledger.after script) a with ⟨message, session, rfl⟩ | hsame
    · have hnew : request = s.cancellations.length := by
        rw [Ledger.step, List.length_append, List.length_singleton] at hlt
        rw [h.length]
        omega
      rw [hnew]
      exact List.getElem?_concat_length
    · exact absurd (hsame ▸ hlt) hold

/-- A token keeps its request and its place, and a new one gets the next place of its request. -/
theorem Stage.Follows.tokens_step (h : s.Follows script)
    (hknown : ∀ owner, a = .handOut owner → owner < (Ledger.after script).ids.length)
    (token : Nat) : (s.step a).2.tokens[token]? = (owners (script ++ [a]))[token]?.map fun request =>
      (request, place (script ++ [a]) token request) := by
  rw [tokens_of_step, owners_concat]
  have hlen := h.length_tokens
  rcases Nat.lt_or_ge token (owners script).length with hlt | hge
  · rw [List.getElem?_append_left hlt, List.getElem?_append_left (hlen ▸ hlt), h.tokens]
    simp only [place_concat (Nat.le_of_lt hlt)]
  · rw [List.getElem?_append_right hge, List.getElem?_append_right (hlen ▸ hge), hlen]
    cases a with
    | handOut owner =>
        have hnext : s.cancellations[owner]?.elim 0 (·.tokens.length) =
            place (script ++ [.handOut owner]) (owners script).length owner := by
          rw [h.own (hknown owner rfl), Option.elim_some, Cancellation.length_tokens, h.counted,
            place_concat (Nat.le_refl _), place, List.take_length]
        rcases Nat.eq_or_lt_of_le hge with rfl | hgt
        · rw [Nat.sub_self]
          exact congrArg (fun k => some (owner, k)) hnext
        · have hbeyond : [owner][token - (owners script).length]? = none :=
            List.getElem?_eq_none (Nat.le_sub_of_add_le' hgt)
          exact (List.getElem?_map ..).trans
            (by rw [show (Step.handOut owner).handsOut?.toList = [owner] from rfl, hbeyond]; rfl)
    | _ => rfl

theorem Stage.Follows.step (hm : s.Mirrors (Ledger.after script)) (h : s.Follows script)
    (hlength : (s.step a).2.cancellations.length = (Ledger.after (script ++ [a])).ids.length)
    (hknown : ∀ owner, a = .handOut owner → owner < (Ledger.after script).ids.length) :
    (s.step a).2.Follows (script ++ [a]) := by
  have hids : (Ledger.after script).ids.length ≤ (Ledger.after (script ++ [a])).ids.length := by
    rw [Ledger.after_concat]
    exact ids_step_le ..
  refine ⟨hlength, h.own_step hm, h.tokens_step hknown, fun request hmem => ?known,
    fun request => ?counted⟩
  case known =>
    rw [owners_concat] at hmem
    rcases List.mem_append.mp hmem with hold | hnew
    · exact Nat.lt_of_lt_of_le (h.known request hold) hids
    · cases a with
      | handOut owner =>
          rw [List.mem_singleton.mp hnew]
          exact Nat.lt_of_lt_of_le (hknown owner rfl) hids
      | _ => cases hnew
  case counted =>
    rw [acts_concat, owners_concat, List.count_append, List.count_append, h.counted,
      count_actsOn hknown]

theorem follows_after (h : HandsOutKnown script) : (Stage.after script).Follows script := by
  induction script using List.reverseRecOn with
  | nil =>
      exact ⟨rfl, fun hlt => absurd hlt (Nat.not_lt_zero _), fun _ => rfl,
        fun _ hmem => absurd hmem List.not_mem_nil, fun _ => rfl⟩
  | append_singleton script a ih =>
      obtain ⟨hbefore, hknown⟩ := handsOutKnown_concat.mp h
      have hlength := (Stage.Keeps.after (script ++ [a]) 0).length
      rw [Stage.after_concat] at hlength ⊢
      exact (ih hbefore).step (Stage.Mirrors.after script) hlength hknown

/-! ## Tokens -/

theorem cancelToken_not_mem_actsOn (h : ∀ token, a ≠ .cancelToken token) (k : Nat) :
    .cancelToken k ∉ actsOn script request a := by
  intro hmem
  unfold actsOn at hmem
  split at hmem
  · split at hmem
    · split at hmem
      · cases List.mem_singleton.mp hmem
      · cases hmem
    · split at hmem
      · cases List.mem_singleton.mp hmem
      · cases hmem
    · exact h _ rfl
    · obtain ⟨_, -, hpost⟩ := List.mem_map.mp hmem
      cases hpost
  · cases hmem

/-- A step cancels a token by itself just if it names it; by the request that is told by the place. -/
theorem Stage.Follows.revoked_step (h : s.Follows script)
    (howner : (owners script)[token]? = some request) (a : Step) :
    Revoked (acts (script ++ [a]) request) (place script token request) ↔
      Revoked (acts script request) (place script token request) ∨ a = .cancelToken token := by
  rw [acts_concat]
  by_cases hcancel : ∃ other, a = .cancelToken other
  · obtain ⟨other, rfl⟩ := hcancel
    have hrequest := h.known request (List.mem_of_getElem? howner)
    rw [Step.cancelToken.injEq]
    by_cases hsame : (owners script)[other]? = some request
    · have hacts : actsOn script request (.cancelToken other) =
          [.cancelToken (place script other request)] :=
        (if_pos hrequest).trans (if_pos hsame)
      rw [hacts, Cancellation.revoked_concat, Act.cancelToken.injEq, place_inj howner hsame,
        h.counted]
      exact or_congr_right (and_iff_left (place_lt howner))
    · have hacts : actsOn script request (.cancelToken other) = [] :=
        (if_pos hrequest).trans (if_neg hsame)
      rw [hacts, List.append_nil]
      exact (or_iff_left fun heq : other = token => hsame (heq ▸ howner)).symm
  · have hother : ∀ k, a ≠ .cancelToken k := fun k heq => hcancel ⟨k, heq⟩
    rw [Cancellation.revoked_append (cancelToken_not_mem_actsOn hother)]
    exact (or_iff_left (hother token)).symm

theorem Stage.Follows.not_revoked_handOut (h : s.Follows script) (request : Nat) :
    ¬ Revoked (acts (script ++ [.handOut request]) request)
      (place script (owners script).length request) := by
  have hother : ∀ k, Step.handOut request ≠ .cancelToken k := fun k heq => by cases heq
  rw [place, List.take_length, ← h.counted, acts_concat,
    Cancellation.revoked_append (cancelToken_not_mem_actsOn hother)]
  exact fun hrevoked => Nat.lt_irrefl _ hrevoked.lt

/-- A token is cancelled by itself just if a step of the script names it. -/
theorem revoked_iff (h : HandsOutKnown script) (howner : (owners script)[token]? = some request) :
    Revoked (acts script request) (place script token request) ↔ CancelsToken script token := by
  induction script using List.reverseRecOn with
  | nil => cases howner
  | append_singleton script a ih =>
      have hbefore := (handsOutKnown_concat.mp h).1
      have hfollows := follows_after hbefore
      rw [owners_concat] at howner
      rw [cancelsToken_concat]
      rcases Nat.lt_or_ge token (owners script).length with hlt | hge
      · rw [List.getElem?_append_left hlt] at howner
        rw [place_concat (Nat.le_of_lt hlt), hfollows.revoked_step howner, ih hbefore howner,
          and_iff_left hlt]
      · -- It is handed out in this step, and so nobody has named it.
        rw [List.getElem?_append_right hge] at howner
        cases a with
        | handOut owner =>
            obtain ⟨hlast, rfl⟩ : token - (owners script).length < 1 ∧ owner = request := by
              obtain ⟨hlast, heq⟩ := List.getElem?_eq_some_iff.mp howner
              exact ⟨hlast, (List.getElem_singleton hlast).symm.trans heq⟩
            obtain rfl : token = (owners script).length := by omega
            rw [place_concat (Nat.le_refl _)]
            refine iff_of_false (hfollows.not_revoked_handOut owner) ?_
            rintro (hcancels | ⟨-, hlt⟩)
            · exact Nat.lt_irrefl _ hcancels.lt
            · exact Nat.lt_irrefl _ hlt
        | _ => cases howner

theorem tokens_note (h : HandsOutKnown script) (reply : Reply) (token : Nat) :
    ((Stage.after script).note reply).tokens[token]? = (owners script)[token]?.map fun request =>
      (Cancellation.after (acts script request)).tokenCancelled (place script token request) := by
  have hfollows := follows_after h
  show ((Stage.after script).tokens.map _)[token]? = _
  rw [List.getElem?_map, hfollows.tokens, Option.map_map]
  cases howner : (owners script)[token]? with
  | none => rfl
  | some request =>
      have hown := hfollows.own (hfollows.known request (List.mem_of_getElem? howner))
      simp [hown]

theorem tokenCancelled_iff (h : HandsOutKnown script)
    (howner : (owners script)[token]? = some request) :
    (Cancellation.after (acts script request)).tokenCancelled (place script token request) = true ↔
      CancelsToken script token ∨ Posted (acts script request) := by
  rw [Cancellation.tokenCancelled_iff, revoked_iff h howner]

/-! ## A token that is cancelled -/

theorem actsOn_cancelToken (script : List Step) (request token : Nat) :
    actsOn script request (.cancelToken token) = [] ∨
      ∃ k, actsOn script request (.cancelToken token) = [.cancelToken k] := by
  unfold actsOn
  split
  · dsimp only
    split
    · exact .inr ⟨_, rfl⟩
    · exact .inl rfl
  · exact .inl rfl

theorem posted_cancelToken : Posted (acts (script ++ [.cancelToken token]) request) ↔
    Posted (acts script request) := by
  rw [acts_concat]
  rcases actsOn_cancelToken script request token with hacts | ⟨k, hacts⟩
  · rw [hacts, List.append_nil]
  · rw [hacts, Cancellation.posted_concat]
    exact or_iff_left fun ⟨_, hpost⟩ => nomatch hpost

theorem pending_cancelToken :
    (Cancellation.after (acts (script ++ [.cancelToken token]) request)).pending =
      (Cancellation.after (acts script request)).pending := by
  rw [acts_concat]
  rcases actsOn_cancelToken script request token with hacts | ⟨k, hacts⟩
  · rw [hacts, List.append_nil]
  · rw [hacts, Cancellation.after_concat]
    rfl

/-- Of two tokens the other one stands as before. -/
theorem tokens_cancelToken (h : HandsOutKnown script) (hother : other ≠ token) (reply : Reply) :
    ((Stage.after (script ++ [.cancelToken token])).note reply).tokens[other]? =
      ((Stage.after script).note reply).tokens[other]? := by
  have h' := h.cancelToken token
  have howners : owners (script ++ [.cancelToken token]) = owners script :=
    owners_concat.trans (List.append_nil _)
  rw [tokens_note h', tokens_note h, howners]
  cases howner : (owners script)[other]? with
  | none => rfl
  | some request =>
      refine congrArg some (Bool.eq_iff_iff.mpr ?_)
      rw [tokenCancelled_iff h' (howners ▸ howner), tokenCancelled_iff h howner, posted_cancelToken,
        cancelsToken_concat]
      exact or_congr_left (or_iff_left fun hlast => hother (Step.cancelToken.inj hlast.1).symm)

/-! ## The whole -/

def pending (script : List Step) (request : Nat) : List Reason :=
  (Stage.after script).cancellations.pendingOf request

/-- What is posted to a request, what its handler hears of it, and what its tokens do. -/
structure Signals (script : List Step) (request : Nat) : Prop where
  /-- It stands as its own history leaves it, whatever is done to other requests. -/
  own : (Stage.after script).cancellations[request]? = some (.after (acts script request))
  /-- A post is kept if fewer than two reasons are pending, and is answered accordingly. -/
  post : ∀ reason, let kept := decide ((pending script request).length < 2)
    ((Stage.after script).step (.post request reason)).1 = .truth kept ∧
      accepted (acts (script ++ [.post request reason]) request) =
        accepted (acts script request) ++ if kept then [reason] else []
  /-- A handler that asks gets the oldest reason that is pending. -/
  pop : ((Stage.after script).step (.pop request)).1 = .reason (pending script request).head? ∧
    popped (acts (script ++ [.pop request]) request) =
      popped (acts script request) ++ (pending script request).head?.toList
  /-- The reasons popped and those pending are the ones that were kept, in order. -/
  queue : popped (acts script request) ++ pending script request = accepted (acts script request)
  room : (pending script request).length ≤ 2
  cancelled : ((Stage.after script).step (.isCancelled request)).1 =
    .truth (decide (Posted (acts script request)))
  /-- Once it is cancelled it stays so, whatever else happens. -/
  lasts : Posted (acts script request) → ∀ more, Posted (acts (script ++ more) request)
  token_iff : ∀ {token}, (owners script)[token]? = some request → ∀ reply,
    (((Stage.after script).note reply).tokens[token]? = some true ↔
      CancelsToken script token ∨ Posted (acts script request))
  /-- A token that is cancelled touches neither the request nor any other token. -/
  spares : ∀ token, pending (script ++ [.cancelToken token]) request = pending script request ∧
    (Posted (acts (script ++ [.cancelToken token]) request) ↔ Posted (acts script request)) ∧
    ∀ other, other ≠ token → ∀ reply,
      ((Stage.after (script ++ [.cancelToken token])).note reply).tokens[other]? =
        ((Stage.after script).note reply).tokens[other]?

theorem acts_mono (script more : List Step) (request : Nat) :
    acts script request <+: acts (script ++ more) request := by
  induction more using List.reverseRecOn with
  | nil => exact (List.append_nil script).symm ▸ List.prefix_refl _
  | append_singleton more a ih =>
      rw [← List.append_assoc, acts_concat]
      exact ih.trans (List.prefix_append ..)

theorem pending_eq (h : HandsOutKnown script) (hlt : request < (Ledger.after script).ids.length) :
    pending script request = (Cancellation.after (acts script request)).pending := by
  rw [pending, Cancellations.pendingOf, (follows_after h).own hlt]
  rfl

/-- **A request hears its first two signals and is cancelled by all of them.** Whatever is posted to a
request, and whenever its handler asks for a reason, hands out a token or cancels one. -/
theorem signals_after (h : HandsOutKnown script) (hlt : request < (Ledger.after script).ids.length) :
    Signals script request := by
  have hown := (follows_after h).own hlt
  have hpending := pending_eq h hlt
  constructor
  case own => exact hown
  case post =>
    intro reason
    have hact : actsOn script request (.post request reason) = [.post reason] := by
      refine (if_pos hlt).trans ?_
      simp [Ledger.posts]
    refine ⟨?_, ?_⟩
    · show Reply.truth ((Stage.after script).cancellations[request]?.any (·.hasRoom)) = _
      rw [hown, hpending]
      rfl
    · rw [acts_concat, hact, Cancellation.accepted_concat, hpending]
      simp only [decide_eq_true_eq]
      rfl
  case pop =>
    have hact : actsOn script request (.pop request) = [.pop] := (if_pos hlt).trans (if_pos rfl)
    refine ⟨?_, ?_⟩
    · show Reply.reason ((Stage.after script).cancellations[request]?.bind (·.next?)) = _
      rw [hown, hpending]
      rfl
    · rw [acts_concat, hact, Cancellation.popped_concat, hpending]
      rfl
  case queue => exact hpending ▸ Cancellation.popped_append_pending (acts script request)
  case room => exact hpending ▸ Cancellation.length_pending_le (acts script request)
  case cancelled =>
    show Reply.truth ((Stage.after script).cancellations[request]?.any (·.raised)) = _
    rw [hown]
    exact congrArg Reply.truth (Bool.eq_iff_iff.mpr (by simp [Cancellation.raised_iff]))
  case lasts =>
    rintro ⟨reason, hmem⟩ more
    exact ⟨reason, (acts_mono script more request).subset hmem⟩
  case token_iff =>
    intro token howner reply
    rw [tokens_note h, howner, Option.map_some, Option.some.injEq]
    exact tokenCancelled_iff h howner
  case spares =>
    intro token
    have h' := h.cancelToken token
    have hlt' : request < (Ledger.after (script ++ [.cancelToken token])).ids.length := by
      rw [Ledger.after_concat]
      exact hlt
    refine ⟨?_, posted_cancelToken, fun other hother reply => tokens_cancelToken h hother reply⟩
    rw [pending_eq h' hlt', hpending, pending_cancelToken]

def sweptScript : List Step :=
  [.request ⟨5, .unbindRequest, none⟩ 0, .request ⟨5, .unbindRequest, none⟩ 0, .register 0,
    .handOut 0, .handOut 1, .handOut 1, .cancelToken 1, .sessionAbandon 0 5,
    .cancelAll .sessionClosing, .post 0 .client, .pop 0, .handOut 0]

/-- The third post to the first request is turned down, and the token that it hands out at last is
cancelled from the start; the second request has cancelled one of its tokens and nothing else. -/
theorem signals_after_sweep : HandsOutKnown sweptScript ∧
    0 < (Ledger.after sweptScript).ids.length ∧ Signals sweptScript 0 ∧
    popped (acts sweptScript 0) = [.client] ∧ pending sweptScript 0 = [.sessionClosing] ∧
    ((Stage.after sweptScript).note .done).cancelled = [true, false] ∧
    ((Stage.after sweptScript).note .done).tokens = [true, true, false, true] :=
  ⟨by decide, by decide, signals_after (by decide) (by decide), by decide, by decide, by decide,
    by decide⟩

end Directory.Rehearsal.Roster
