import Ascendance.Core.History
import Ascendance.Core.Lists
import Ascendance.Models.AuthRefresh.Client

/-!
# What the client sends and when

In every run each entry of the history is justified by those before it: a request is sent again
once, after the refresh that its failure waited for; the coordinator refreshes when no refresh is
under way and something has failed; a call fails with the status of its last answer.
-/

namespace Ascendance.AuthRefresh

open Ascendance.Core

/-- Is the entry about the given call? -/
def Entry.isAbout (i : ℕ) : Entry → Bool
  | .sent call _ _ _ => call == i
  | .answered call _ _ => call == i
  | .resolved call => call == i
  | .rejected call _ => call == i
  | .accountDeleted => false

/-- What has happened to a call. -/
def about (i : ℕ) (past : List Entry) : List Entry := past.filter (Entry.isAbout i)

/-- A call that the coordinator made. -/
def Posted (past : List Entry) (i : ℕ) : Prop :=
  ∃ h, Entry.sent i .coordinator refreshEndpoint h ∈ past

/-- A call whose promise is settled. -/
def Finished (past : List Entry) (i : ℕ) : Prop :=
  .resolved i ∈ past ∨ ∃ status, .rejected i status ∈ past

/-- The account was deleted, and no request has failed since. -/
def Departing (past : List Entry) : Prop :=
  ∃ before between, past = before ++ .accountDeleted :: between ∧
    ∀ i url status, .answered i url status ∈ between → isSuccess status = false → url = ""

/-- Why a caller may get an answer 401: it came to the second request, or to one that refreshes
nothing, or the account was deleted, or the refresh has failed. -/
inductive Excused (past : List Entry) (i : ℕ) : Prop
  | again {sender : Sender} {url : String} {h : Headers} (hsent : .sent i sender url h ∈ past)
      (hretry : h.axiosRetry = true)
  | bypassed {sender : Sender} {url : String} {h : Headers} (hsent : .sent i sender url h ∈ past)
      (hbypass : bypasses url = true)
  | departing {before : List Entry} {url : String}
      (hpast : past = before ++ [.answered i url (some 401)])
      (hdeparting : Departing before)
  | failed {before between after : List Entry} {url : String} {k : ℕ} {status : Option ℕ}
      (hpast :
        past = before ++ .answered i url (some 401) :: between ++ .rejected k status :: after)
      (hposted : Posted past k)

/-- What must have happened before an entry. -/
inductive Lawful (past : List Entry) : Entry → Prop
  | first {i : ℕ} {url : String} {h : Headers} (hnew : about i past = [])
      (hretry : h.axiosRetry = false) (hattempt : h.clientRequestAttempt = 1) :
      Lawful past (.sent i .caller url h)
  | refresh {i j : ℕ} {url : String} {h h' : Headers} (hnew : about i past = [])
      (hretry : h.axiosRetry = false) (hidle : ∀ k, Posted past k → Finished past k)
      (hsent : .sent j .caller url h' ∈ past) (hfailed : .answered j url (some 401) ∈ past)
      (hcause : h.causedByClientRequestId = some h'.clientRequestId) :
      Lawful past (.sent i .coordinator refreshEndpoint h)
  | again {i k : ℕ} {url : String} {h h' : Headers} {before between after : List Entry}
      (honce : about i past = [.sent i .caller url h', .answered i url (some 401)])
      (hpast : past = before ++ .answered i url (some 401) :: between ++ .resolved k :: after)
      (hposted : Posted past k) (hbypass : bypasses url = false) (hretry : h.axiosRetry = true)
      (hid : h.clientRequestId = h'.clientRequestId) (hattempt : h.clientRequestAttempt = 2) :
      Lawful past (.sent i .caller url h)
  | answered {i : ℕ} {sender : Sender} {url : String} {h : Headers} {status : Option ℕ}
      {earlier : List Entry} (hlast : about i past = earlier ++ [.sent i sender url h]) :
      Lawful past (.answered i url status)
  | resolved {i : ℕ} {url : String} {status : Option ℕ} {earlier : List Entry}
      (hlast : about i past = earlier ++ [.answered i url status])
      (hok : isSuccess status = true) : Lawful past (.resolved i)
  | rejected {i : ℕ} {url : String} {status : Option ℕ} {earlier : List Entry}
      (hlast : about i past = earlier ++ [.answered i url status])
      (hfail : isSuccess status = false) (hwhy : status = some 401 → Excused past i) :
      Lawful past (.rejected i status)
  | accountDeleted : Lawful past .accountDeleted

/-- What has happened to a call in each of its states. -/
inductive Journey (i : ℕ) : Call → List Entry → Prop
  | sent {sender : Sender} {config : RetryableRequestConfig} {h : Headers}
      (hretry : config.retry = false) (hid : config.clientRequestId = some h.clientRequestId)
      (hattempt : config.clientRequestAttempt = some 1)
      (hposted : sender = .coordinator → config.url = refreshEndpoint) :
      Journey i (.sent sender config) [.sent i sender config.url h]
  | waiting {config : RetryableRequestConfig} {h : Headers} {flight : ℕ}
      (hretry : config.retry = true) (hid : config.clientRequestId = some h.clientRequestId)
      (hattempt : config.clientRequestAttempt = some 2) (hbypass : bypasses config.url = false) :
      Journey i (.waiting .caller config (some 401) flight)
        [.sent i .caller config.url h, .answered i config.url (some 401)]
  | again {config : RetryableRequestConfig} {h h' : Headers} (hretry : config.retry = true)
      (hagain : h.axiosRetry = true) : Journey i (.sent .caller config)
        [.sent i .caller config.url h', .answered i config.url (some 401),
          .sent i .caller config.url h]
  | resolved {earlier : List Entry} {url : String} {status : Option ℕ} :
      Journey i .resolved (earlier ++ [.answered i url status] ++ [.resolved i])
  | rejected {earlier : List Entry} {status : Option ℕ} :
      Journey i (.rejected status) (earlier ++ [.rejected i status])

/-- What a call that waits for a promise can expect of it. -/
def Promised (past : List Entry) (i : ℕ) (url : String) (flight : Flight) : Prop :=
  ∃ before after, past = before ++ .answered i url (some 401) :: after ∧ match flight with
    | .queued _ => True
    | .posting k => Posted past k ∧ ¬ Finished before k
    | .settled ok => ∃ k, Posted past k ∧
        if ok then .resolved k ∈ after else ∃ status, .rejected k status ∈ after

/-- What holds of every reachable client: its history is lawful and its calls and flights are where
the history says. -/
structure Inv (s : Client) : Prop where
  lawful : Justified Lawful s.history
  journey : ∀ (i : ℕ) c, s.calls[i]? = some c → Journey i c (about i s.history)
  unknown : ∀ i, s.calls.length ≤ i → about i s.history = []
  promise : ∀ (f : ℕ) flight, s.flights[f]? = some flight → (∀ ok, flight ≠ .settled ok) →
    s.refreshPromise = some f
  pending : ∀ f, s.refreshPromise = some f → ∃ flight, s.flights[f]? = some flight ∧
    ∀ ok, flight ≠ .settled ok
  queued : ∀ (f : ℕ) cause, s.flights[f]? = some (Flight.queued cause) → ∃ j url h,
    .sent j .caller url h ∈ s.history ∧ .answered j url (some 401) ∈ s.history ∧
      cause = some h.clientRequestId
  posting : ∀ (f : ℕ) k, s.flights[f]? = some (Flight.posting k) → Posted s.history k
  posted : ∀ k, Posted s.history k → Finished s.history k ∨ ∃ f : ℕ,
    s.flights[f]? = some (Flight.posting k)
  waiting :
    ∀ (i : ℕ) sender config status f, s.calls[i]? = some (Call.waiting sender config status f) →
    ∃ flight, s.flights[f]? = some flight ∧ Promised s.history i config.url flight
  departing : s.accountDeleted = true → Departing s.history

section Histories

variable {past es : List Entry} {i k : ℕ}

private theorem about_append : about i (past ++ es) = about i past ++ about i es :=
  List.filter_append past es

private theorem mem_of_about {e : Entry} (h : e ∈ about i past) : e ∈ past :=
  List.mem_of_mem_filter h

private theorem about_eq_nil (h : ∀ e ∈ es, e.isAbout i = false) : about i es = [] :=
  List.filter_eq_nil_iff.mpr fun e he => by rw [h e he]; exact Bool.false_ne_true

private theorem about_eq_self (h : ∀ e ∈ es, e.isAbout i = true) : about i es = es :=
  List.filter_eq_self.mpr h

/-- What was posted stays posted. -/
theorem Posted.append (h : Posted past k) : Posted (past ++ es) k := by
  obtain ⟨headers, hmem⟩ := h
  exact ⟨headers, List.mem_append_left es hmem⟩

/-- What was finished stays finished. -/
theorem Finished.append (h : Finished past k) : Finished (past ++ es) k := by
  rcases h with h | ⟨status, h⟩
  · exact .inl (List.mem_append_left es h)
  · exact .inr ⟨status, List.mem_append_left es h⟩

private theorem finished_about : Finished (about k past) k ↔ Finished past k := by
  constructor
  · rintro (h | ⟨status, h⟩)
    · exact .inl (mem_of_about h)
    · exact .inr ⟨status, mem_of_about h⟩
  · rintro (h | ⟨status, h⟩)
    · exact .inl (List.mem_filter.mpr ⟨h, beq_self_eq_true k⟩)
    · exact .inr ⟨status, List.mem_filter.mpr ⟨h, beq_self_eq_true k⟩⟩

/-- A client that is about to leave stays so while nothing else fails. -/
theorem Departing.append (h : Departing past)
    (hes : ∀ i url status, .answered i url status ∈ es → isSuccess status = false → url = "") :
    Departing (past ++ es) := by
  obtain ⟨before, between, rfl, hbetween⟩ := h
  refine ⟨before, between ++ es, by rw [List.append_assoc, List.cons_append], ?_⟩
  intro i url status hmem hfail
  rcases List.mem_append.mp hmem with hmem | hmem
  · exact hbetween i url status hmem hfail
  · exact hes i url status hmem hfail

/-- A promise made by the history stays made. -/
theorem Promised.append {url : String} {flight : Flight} (h : Promised past i url flight) :
    Promised (past ++ es) i url flight := by
  obtain ⟨before, after, rfl, hflight⟩ := h
  refine ⟨before, after ++ es, by rw [List.append_assoc, List.cons_append], ?_⟩
  cases flight with
  | queued cause => trivial
  | posting k => exact ⟨hflight.1.append, hflight.2⟩
  | settled ok =>
    obtain ⟨k, hposted, hend⟩ := hflight
    refine ⟨k, hposted.append, ?_⟩
    cases ok with
    | false =>
      obtain ⟨status, hmem⟩ := hend
      exact ⟨status, List.mem_append_left es hmem⟩
    | true => exact List.mem_append_left es hend

/-- A promise that is posted has not finished yet. -/
theorem Promised.post {url : String} {flight : Flight} (h : Promised past i url flight)
    (hk : ¬ Finished past k) (hposted : Posted (past ++ es) k) :
    Promised (past ++ es) i url (.posting k) := by
  obtain ⟨before, after, rfl, -⟩ := h
  exact ⟨before, after ++ es, by rw [List.append_assoc, List.cons_append], hposted,
    fun hbefore => hk hbefore.append⟩

/-- The call of a promise finishes after the answers that wait for it. -/
theorem Promised.settle {url : String} (h : Promised past i url (.posting k)) {ok : Bool}
    (hk : if ok then .resolved k ∈ past else ∃ status, .rejected k status ∈ past) :
    Promised past i url (.settled ok) := by
  obtain ⟨before, after, rfl, hposted, hbefore⟩ := h
  refine ⟨before, after, rfl, k, hposted, ?_⟩
  have hafter : ∀ e ∈ before ++ .answered i url (some 401) :: after,
      e ≠ .answered i url (some 401) → e ∉ before → e ∈ after := fun e he hne hnot =>
    (List.mem_cons.mp ((List.mem_append.mp he).resolve_left hnot)).resolve_left hne
  cases ok with
  | false =>
    obtain ⟨status, hmem⟩ := hk
    exact ⟨status, hafter _ hmem (by simp) fun hin => hbefore (.inr ⟨status, hin⟩)⟩
  | true => exact hafter _ hk (by simp) fun hin => hbefore (.inl hin)

/-- A call under way has not finished. -/
theorem Journey.not_finished {c : Call} {entries : List Entry} (h : Journey i c entries)
    (hc : c ≠ .resolved) (hc' : ∀ status, c ≠ .rejected status) : ¬ Finished entries i := by
  cases h with
  | resolved => exact absurd rfl hc
  | rejected => exact absurd rfl (hc' _)
  | _ => rintro (h | ⟨status, h⟩) <;> simp at h

end Histories

section Steps

variable {s s' : Client} {i k : ℕ} {c : Call} {es : List Entry}

/-- The other calls go on as they did. -/
theorem Inv.journeys (h : Inv s) (hhistory : s'.history = s.history ++ es)
    (hes : ∀ e ∈ es, ∀ j, j ≠ i → e.isAbout j = false)
    (hcalls : ∀ j, j ≠ i → s'.calls[j]? = s.calls[j]?) (hcall : s'.calls[i]? = some c)
    (hjourney : Journey i c (about i s.history ++ about i es)) :
    ∀ j d, s'.calls[j]? = some d → Journey j d (about j s'.history) := by
  intro j d hd
  rw [hhistory, about_append]
  by_cases hj : j = i
  · subst hj
    obtain rfl := Option.some.inj (hcall.symm.trans hd)
    exact hjourney
  · rw [about_eq_nil fun e he => hes e he j hj, List.append_nil]
    exact h.journey j d ((hcalls j hj).symm.trans hd)

/-- Nothing is recorded about calls that are not there yet. -/
private theorem Inv.unknowns (h : Inv s) (hhistory : s'.history = s.history ++ es)
    (hes : ∀ e ∈ es, ∀ j, j ≠ i → e.isAbout j = false) (hi : i < s'.calls.length)
    (hlength : s.calls.length ≤ s'.calls.length) :
    ∀ j, s'.calls.length ≤ j → about j s'.history = [] := by
  intro j hj
  rw [hhistory, about_append, h.unknown j (hlength.trans hj),
    about_eq_nil fun e he => hes e he j (by omega), List.nil_append]

/-- A call with an outcome has finished so. -/
theorem Inv.finished_of_outcome (h : Inv s) {ok : Bool} (hk : s.outcome k = some ok) :
    if ok then .resolved k ∈ s.history else ∃ status, .rejected k status ∈ s.history := by
  unfold Client.outcome at hk
  split at hk
  · next hcall =>
    obtain rfl := Option.some.inj hk
    have hjourney := h.journey k _ hcall
    generalize hpast : about k s.history = past at hjourney
    cases hjourney
    exact mem_of_about (by rw [hpast]; simp)
  · next status hcall =>
    obtain rfl := Option.some.inj hk
    have hjourney := h.journey k _ hcall
    generalize hpast : about k s.history = past at hjourney
    cases hjourney
    exact ⟨status, mem_of_about (by rw [hpast]; simp)⟩
  · cases hk

private theorem Inv.not_finished (h : Inv s) (hk : s.outcome k = none) :
    ¬ Finished s.history k := by
  rw [← finished_about]
  cases hcall : s.calls[k]? with
  | none =>
    rw [h.unknown k (List.getElem?_eq_none_iff.mp hcall)]
    rintro (hmem | ⟨_, hmem⟩) <;> cases hmem
  | some c =>
    refine (h.journey k c hcall).not_finished ?_ ?_
    · rintro rfl
      rw [Client.outcome, hcall] at hk
      cases hk
    · rintro status rfl
      rw [Client.outcome, hcall] at hk
      cases hk

/-- A promise in the state that does not change keeps what it promised. -/
theorem Inv.waitings (h : Inv s) (hhistory : s'.history = s.history ++ es)
    (hflights : s'.flights = s.flights) (hcalls : ∀ j, j ≠ i → s'.calls[j]? = s.calls[j]?)
    (hcall : s'.calls[i]? = some c)
    (hc : ∀ sender config status f, c ≠ .waiting sender config status f) :
    ∀ (j : ℕ) sender config status f,
      s'.calls[j]? = some (Call.waiting sender config status f) →
      ∃ flight, s'.flights[f]? = some flight ∧ Promised s'.history j config.url flight := by
  intro j sender config status f hj
  by_cases hji : j = i
  · subst hji
    exact absurd (Option.some.inj (hcall.symm.trans hj)) (hc _ _ _ _)
  · obtain ⟨flight, hflight, hpromised⟩ :=
      h.waiting j sender config status f ((hcalls j hji).symm.trans hj)
    rw [hflights, hhistory]
    exact ⟨flight, hflight, hpromised.append⟩

/-- A queued refresh has its cause in the history. -/
private theorem Inv.queueds (h : Inv s) (hhistory : s'.history = s.history ++ es) {f : ℕ}
    {cause : Option ℕ}
    (hf : s.flights[f]? = some (Flight.queued cause)) : ∃ j url h,
      .sent j .caller url h ∈ s'.history ∧ .answered j url (some 401) ∈ s'.history ∧
        cause = some h.clientRequestId := by
  obtain ⟨j, url, headers, hsent, hfailed, hcause⟩ := h.queued f cause hf
  rw [hhistory]
  exact ⟨j, url, headers, List.mem_append_left es hsent, List.mem_append_left es hfailed, hcause⟩

/-- When nothing is posted, a call of the coordinator has finished or is that of a promise. -/
theorem Inv.posteds (h : Inv s) (hhistory : s'.history = s.history ++ es)
    (hflights : s'.flights = s.flights) (hes : ¬ Posted es k) (hk : Posted s'.history k) :
    Finished s'.history k ∨ ∃ f : ℕ, s'.flights[f]? = some (Flight.posting k) := by
  obtain ⟨headers, hmem⟩ := hk
  rw [hhistory] at hmem
  rw [hhistory, hflights]
  refine (h.posted k ⟨headers, (List.mem_append.mp hmem).resolve_right fun hin => ?_⟩).imp_left
    Finished.append
  exact hes ⟨headers, hin⟩

/-- A new request is known by the next number. -/
theorem Inv.sendNew (h : Inv s) (uuid : ℕ) (sender : Sender) (url : String) (cause : Option ℕ)
    (hsender : sender = .coordinator → url = refreshEndpoint)
    (hlawful : Lawful s.history (.sent s.calls.length sender url
      (interceptRequest uuid s.previousClientRequestId (.of url cause)).2)) :
    let s' := s.send uuid s.calls.length sender (.of url cause)
    Justified Lawful s'.history ∧
      (∀ (j : ℕ) d, s'.calls[j]? = some d → Journey j d (about j s'.history)) ∧
      ∀ j, s'.calls.length ≤ j → about j s'.history = [] := by
  have hes : ∀ e ∈ [Entry.sent s.calls.length sender url
      (interceptRequest uuid s.previousClientRequestId (.of url cause)).2],
      ∀ j, j ≠ s.calls.length → e.isAbout j = false := by
    intro e he j hj
    rw [List.mem_singleton.mp he]
    exact beq_false_of_ne fun heq => hj heq.symm
  refine ⟨h.lawful.concat hlawful, h.journeys rfl hes (fun j hj => Client.getElem?_send_new hj)
    Client.getElem?_send_last ?_, h.unknowns rfl hes ?_ ?_⟩
  · rw [h.unknown _ le_rfl, List.nil_append, about_eq_self fun e he => by
      rw [List.mem_singleton.mp he]; exact beq_self_eq_true _]
    exact .sent rfl rfl rfl hsender
  · rw [Client.send_calls_new, List.length_append, List.length_singleton]
    omega
  · rw [Client.send_calls_new, List.length_append]
    omega

/-- Starting a request keeps the invariant. -/
theorem Inv.start (h : Inv s) (url : String) (uuid : ℕ) :
    Inv (s.send uuid s.calls.length .caller (.of url none)) := by
  obtain ⟨hlawful, hjourney, hunknown⟩ := h.sendNew uuid .caller url none nofun
    (.first (h.unknown _ le_rfl) rfl rfl)
  have hposted : ∀ k, ¬ Posted [Entry.sent s.calls.length .caller url
      (interceptRequest uuid s.previousClientRequestId (.of url none)).2] k := by
    rintro k ⟨headers, hmem⟩
    cases List.mem_singleton.mp hmem
  exact {
    lawful := hlawful
    journey := hjourney
    unknown := hunknown
    promise := h.promise
    pending := h.pending
    queued := fun f cause hf => h.queueds rfl hf
    posting := fun f k hf => (h.posting f k hf).append
    posted := fun k hk => h.posteds rfl rfl (hposted k) hk
    waiting := h.waitings rfl rfl (fun j hj => Client.getElem?_send_new hj)
      Client.getElem?_send_last fun _ _ _ _ => nofun
    departing := fun hd => (h.departing hd).append fun _ _ _ hmem => by
      cases List.mem_singleton.mp hmem }

/-- Deleting the account keeps the invariant. -/
theorem Inv.deleteAccount (h : Inv s) :
    Inv ({ s with accountDeleted := true }.log .accountDeleted) := by
  have hes : ∀ e ∈ [Entry.accountDeleted], ∀ j, e.isAbout j = false := by
    intro e he j
    rw [List.mem_singleton.mp he]
    rfl
  have habout : ∀ j, about j (s.history ++ [.accountDeleted]) = about j s.history := fun j => by
    rw [about_append, about_eq_nil fun e he => hes e he j, List.append_nil]
  exact {
    lawful := h.lawful.concat .accountDeleted
    journey := fun j d hd => (habout j).symm ▸ h.journey j d hd
    unknown := fun j hj => (habout j).trans (h.unknown j hj)
    promise := h.promise
    pending := h.pending
    queued := fun f cause hf => h.queueds rfl hf
    posting := fun f k hf => (h.posting f k hf).append
    posted := fun k hk => h.posteds rfl rfl (fun ⟨_, hmem⟩ => by
      cases List.mem_singleton.mp hmem) hk
    waiting := fun j sender config status f hj => by
      obtain ⟨flight, hflight, hpromised⟩ := h.waiting j sender config status f hj
      exact ⟨flight, hflight, hpromised.append⟩
    departing := fun _ => ⟨s.history, [], rfl, fun _ _ _ hmem => by cases hmem⟩ }

/-- Only one promise has something to do. -/
theorem Inv.unique (h : Inv s) {f f' : ℕ} {flight flight' : Flight}
    (hf : s.flights[f]? = some flight) (hflight : ∀ ok, flight ≠ .settled ok)
    (hf' : s.flights[f']? = some flight') (hflight' : ∀ ok, flight' ≠ .settled ok) : f' = f :=
  Option.some.inj ((h.promise f' flight' hf' hflight').symm.trans (h.promise f flight hf hflight))

/-- Posting the refresh request of a flight keeps the invariant. -/
theorem Inv.refresh (h : Inv s) {f : ℕ} {cause : Option ℕ}
    (hf : s.flights[f]? = some (Flight.queued cause)) (uuid : ℕ) :
    Inv { s.send uuid s.calls.length .coordinator (.of refreshEndpoint cause) with
      flights := s.flights.set f (.posting s.calls.length) } := by
  have hlt := (List.getElem?_eq_some_iff.mp hf).1
  have hidle : ∀ k, Posted s.history k → Finished s.history k := by
    intro k hk
    refine (h.posted k hk).resolve_right ?_
    rintro ⟨f', hf'⟩
    obtain rfl := h.unique hf (by simp) hf' (by simp)
    cases hf.symm.trans hf'
  obtain ⟨j, url, headers, hsent, hfailed, hcause⟩ := h.queued f cause hf
  obtain ⟨hlawful, hjourney, hunknown⟩ := h.sendNew uuid .coordinator refreshEndpoint cause
    (fun _ => rfl)
    (.refresh (h.unknown _ le_rfl) rfl hidle hsent hfailed hcause)
  have hposted : Posted (s.history ++ [.sent s.calls.length .coordinator refreshEndpoint
      (interceptRequest uuid s.previousClientRequestId (.of refreshEndpoint cause)).2])
      s.calls.length := ⟨_, List.mem_append_right _ (List.mem_singleton.mpr rfl)⟩
  have hnew : ¬ Finished s.history s.calls.length := by
    rw [← finished_about, h.unknown _ le_rfl]
    rintro (hmem | ⟨_, hmem⟩) <;> cases hmem
  exact {
    lawful := hlawful
    journey := hjourney
    unknown := hunknown
    promise := fun f' flight hf' hflight => by
      rcases getElem?_set_cases hf' with ⟨rfl, -⟩ | ⟨-, hf'⟩
      · exact h.promise f' _ hf (by simp)
      · exact h.promise f' flight hf' hflight
    pending := fun f' hf' => by
      obtain rfl := Option.some.inj ((h.promise f _ hf (by simp)).symm.trans hf')
      exact ⟨_, List.getElem?_set_self hlt, by simp⟩
    queued := fun f' cause' hf' => by
      rcases getElem?_set_cases hf' with ⟨-, hflight⟩ | ⟨-, hf'⟩
      · cases hflight
      · exact h.queueds rfl hf'
    posting := fun f' k hf' => by
      rcases getElem?_set_cases hf' with ⟨-, hflight⟩ | ⟨-, hf'⟩
      · obtain rfl := Flight.posting.inj hflight
        exact hposted
      · exact (h.posting f' k hf').append
    posted := fun k hk => by
      obtain ⟨headers', hmem⟩ := hk
      rcases List.mem_append.mp hmem with hmem | hmem
      · exact .inl (hidle k ⟨headers', hmem⟩).append
      · obtain ⟨rfl, -⟩ := Entry.sent.inj (List.mem_singleton.mp hmem)
        exact .inr ⟨f, List.getElem?_set_self hlt⟩
    waiting := fun j sender config status f' hj => by
      have hne : j ≠ s.calls.length := by
        rintro rfl
        cases Client.getElem?_send_last.symm.trans hj
      obtain ⟨flight, hflight, hpromised⟩ := h.waiting j sender config status f'
        ((Client.getElem?_send_new hne).symm.trans hj)
      by_cases hf' : f' = f
      · subst hf'
        exact ⟨_, List.getElem?_set_self hlt, hpromised.post hnew hposted⟩
      · exact ⟨flight, (List.getElem?_set_ne (Ne.symm hf')).trans hflight, hpromised.append⟩
    departing := fun hd => (h.departing hd).append fun _ _ _ hmem => by
      cases List.mem_singleton.mp hmem }

/-- Settling a flight keeps the invariant. -/
theorem Inv.clear (h : Inv s) {f k : ℕ} {ok : Bool}
    (hf : s.flights[f]? = some (Flight.posting k)) (hk : s.outcome k = some ok) :
    Inv { s with refreshPromise := none, flights := s.flights.set f (.settled ok) } := by
  have hlt := (List.getElem?_eq_some_iff.mp hf).1
  have hfinished := h.finished_of_outcome hk
  exact {
    lawful := h.lawful
    journey := h.journey
    unknown := h.unknown
    promise := fun f' flight hf' hflight => by
      rcases getElem?_set_cases hf' with ⟨-, rfl⟩ | ⟨hne, hf'⟩
      · exact absurd rfl (hflight ok)
      · exact absurd (h.unique hf (by simp) hf' hflight) hne
    pending := nofun
    queued := fun f' cause hf' => by
      rcases getElem?_set_cases hf' with ⟨-, hflight⟩ | ⟨-, hf'⟩
      · cases hflight
      · exact h.queued f' cause hf'
    posting := fun f' k' hf' => by
      rcases getElem?_set_cases hf' with ⟨-, hflight⟩ | ⟨-, hf'⟩
      · cases hflight
      · exact h.posting f' k' hf'
    posted := fun k' hk' => by
      refine (h.posted k' hk').elim .inl ?_
      rintro ⟨f', hf'⟩
      obtain rfl := h.unique hf (by simp) hf' (by simp)
      obtain rfl := Flight.posting.inj (Option.some.inj (hf.symm.trans hf'))
      cases ok with
      | false => exact .inl (.inr hfinished)
      | true => exact .inl (.inl hfinished)
    waiting := fun j sender config status f' hj => by
      obtain ⟨flight, hflight, hpromised⟩ := h.waiting j sender config status f' hj
      by_cases hf' : f' = f
      · subst hf'
        obtain rfl := Option.some.inj (hf.symm.trans hflight)
        exact ⟨_, List.getElem?_set_self hlt, hpromised.settle hfinished⟩
      · exact ⟨flight, (List.getElem?_set_ne (Ne.symm hf')).trans hflight, hpromised⟩
    departing := h.departing }

/-- A call that goes on without waiting. -/
theorem Inv.goOn (h : Inv s) (hi : s.calls[i]? = some c) (d : Call) (es : List Entry)
    (hd : ∀ sender config status f, d ≠ .waiting sender config status f)
    (hes : ∀ e ∈ es, ∀ j, j ≠ i → e.isAbout j = false)
    (hlawful : Justified Lawful (s.history ++ es))
    (hjourney : Journey i d (about i s.history ++ about i es)) (hposted : ∀ k, ¬ Posted es k)
    {deleted : Bool} (hdeparting : deleted = true → Departing (s.history ++ es))
    (previous : Option ℕ) :
    Inv { s with
      accountDeleted := deleted
      previousClientRequestId := previous
      calls := s.calls.set i d
      history := s.history ++ es } := by
  have hlt := (List.getElem?_eq_some_iff.mp hi).1
  have hne : ∀ j, j ≠ i → (s.calls.set i d)[j]? = s.calls[j]? :=
    fun j hj => List.getElem?_set_ne (Ne.symm hj)
  have hset : (s.calls.set i d)[i]? = some d := List.getElem?_set_self hlt
  have hlength : (s.calls.set i d).length = s.calls.length := List.length_set
  exact {
    lawful := hlawful
    journey := h.journeys rfl hes hne hset hjourney
    unknown := h.unknowns rfl hes (hlength ▸ hlt) hlength.ge
    promise := h.promise
    pending := h.pending
    queued := fun f cause hf => h.queueds rfl hf
    posting := fun f k hf => (h.posting f k hf).append
    posted := fun k hk => h.posteds rfl rfl (hposted k) hk
    waiting := h.waitings rfl rfl hne hset hd
    departing := hdeparting }

/-- An entry is about one call. -/
private theorem isAbout_ne {e : Entry} (he : e.isAbout i = true) {j : ℕ} (hj : j ≠ i) :
    e.isAbout j = false := by
  cases e with
  | accountDeleted => rfl
  | _ => exact beq_false_of_ne fun heq => hj (heq.symm.trans (beq_iff_eq.mp he))

/-- The last request of a call that is under way. -/
theorem Inv.last_sent (h : Inv s) {sender : Sender} {config : RetryableRequestConfig}
    (hi : s.calls[i]? = some (.sent sender config)) : ∃ earlier headers,
      about i s.history = earlier ++ [.sent i sender config.url headers] ∧
        (config.retry = true → headers.axiosRetry = true) ∧
        (sender = .coordinator → config.url = refreshEndpoint) := by
  have hjourney := h.journey i _ hi
  generalize about i s.history = past at hjourney
  cases hjourney with
  | sent hretry _ _ hposted =>
    exact ⟨[], _, rfl, fun htrue => (Bool.false_ne_true (hretry.symm.trans htrue)).elim, hposted⟩
  | again _ hagain => exact ⟨[_, _], _, rfl, fun _ => hagain, nofun⟩

/-- The mark of a deleted account stands until a request fails. -/
theorem departing_of_answer (h : Inv s) (url : String) (status : Option ℕ)
    (hmark : (shouldBypassRefresh s.accountDeleted url).2 = true) :
    Departing (s.history ++ [.answered i url status]) := by
  unfold shouldBypassRefresh at hmark
  split at hmark
  · next hurl =>
    refine (h.departing hmark).append fun _ _ _ hmem _ => ?_
    obtain ⟨-, rfl, -⟩ := Entry.answered.inj (List.mem_singleton.mp hmem)
    exact hurl
  · split at hmark <;> cases hmark

/-- A failure 401 that refreshes nothing is excused. -/
theorem excused_of_answer (h : Inv s) {sender : Sender} {config : RetryableRequestConfig}
    (hi : s.calls[i]? = some (.sent sender config))
    (hnot : shouldAttemptAuthRefresh (some 401) config
      (shouldBypassRefresh s.accountDeleted config.url).1 = false) :
    Excused (s.history ++ [.answered i config.url (some 401)]) i := by
  obtain ⟨earlier, headers, habout, hretry, -⟩ := h.last_sent hi
  have hsent : .sent i sender config.url headers ∈ s.history :=
    mem_of_about (habout ▸ List.mem_append_right _ (List.mem_singleton.mpr rfl))
  cases hagain : config.retry with
  | true => exact .again (List.mem_append_left _ hsent) (hretry hagain)
  | false =>
    simp only [shouldAttemptAuthRefresh, hagain, beq_self_eq_true, Bool.not_false, Bool.and_true,
      Bool.true_and, Bool.not_eq_false'] at hnot
    unfold shouldBypassRefresh at hnot
    split at hnot
    · cases hnot
    split at hnot
    · next hdeleted => exact .departing rfl (h.departing hdeleted)
    · exact .bypassed (List.mem_append_left _ hsent) hnot

/-- A call that is settled by an answer. -/
theorem Inv.settle (h : Inv s) {sender : Sender} {config : RetryableRequestConfig}
    (hi : s.calls[i]? = some (.sent sender config)) {status : Option ℕ} {d : Call} {e : Entry}
    (hd : ∀ sender config status f, d ≠ .waiting sender config status f)
    (he : e.isAbout i = true) (hsent : ∀ call sender url headers, e ≠ .sent call sender url headers)
    (hlawful : Lawful (s.history ++ [.answered i config.url status]) e)
    (hjourney : ∀ earlier, Journey i d (earlier ++ [.answered i config.url status] ++ [e]))
    {deleted : Bool}
    (hdeparting :
      deleted = true → Departing (s.history ++ [.answered i config.url status] ++ [e])) :
    Inv { s with
      accountDeleted := deleted
      calls := s.calls.set i d
      history := s.history ++ [.answered i config.url status] ++ [e] } := by
  obtain ⟨earlier, headers, habout, -, -⟩ := h.last_sent hi
  have habouts : ∀ e' ∈ [Entry.answered i config.url status, e], e'.isAbout i = true := by
    intro e' he'
    rcases List.mem_pair.mp he' with rfl | rfl
    · exact beq_self_eq_true i
    · exact he
  have hassoc : s.history ++ [.answered i config.url status] ++ [e] =
      s.history ++ [.answered i config.url status, e] := List.append_assoc ..
  rw [hassoc] at hdeparting ⊢
  refine h.goOn hi d _ hd (fun e' he' j hj => isAbout_ne (habouts e' he') hj) ?_ ?_ ?_ hdeparting _
  · rw [← hassoc]
    exact (h.lawful.concat (.answered habout)).concat hlawful
  · rw [about_eq_self habouts]
    have hends := hjourney (about i s.history)
    rwa [List.append_assoc] at hends
  · rintro k ⟨headers', hmem⟩
    rcases List.mem_pair.mp hmem with h | h
    · cases h
    · exact hsent _ _ _ _ h.symm

private theorem about_answer (past : List Entry) (i : ℕ) (url : String) (status : Option ℕ) :
    about i (past ++ [.answered i url status]) = about i past ++ [.answered i url status] := by
  have habout : ∀ e ∈ [Entry.answered i url status], e.isAbout i = true := by
    intro e he
    rw [List.mem_singleton.mp he]
    exact beq_self_eq_true i
  rw [about_append, about_eq_self habout]

/-- A call that waits for a promise, the current one or a new one. -/
theorem Inv.wait (h : Inv s) {config : RetryableRequestConfig} {headers : Headers}
    (hi : s.calls[i]? = some (.sent .caller config))
    (habout : about i s.history = [.sent i .caller config.url headers])
    (hbypass : bypasses config.url = false) {cause promise : Option ℕ} {flights : List Flight}
    {f : ℕ}
    (hcause : cause = some headers.clientRequestId)
    (hold : ∀ (f : ℕ) flight, s.flights[f]? = some flight → flights[f]? = some flight)
    (hnew : ∀ (f : ℕ) flight, flights[f]? = some flight →
      s.flights[f]? = some flight ∨ flight = .queued cause ∧ promise = some f)
    (hpromise : ∀ f, s.refreshPromise = some f → promise = some f) (hf : promise = some f)
    {flight : Flight} (hflight : flights[f]? = some flight) (hopen : ∀ ok, flight ≠ .settled ok)
    (hpromised : Promised (s.history ++ [.answered i config.url (some 401)]) i config.url flight)
    {deleted : Bool}
    (hdeparting : deleted = true → Departing (s.history ++ [.answered i config.url (some 401)])) :
    Inv { s with
      accountDeleted := deleted
      refreshPromise := promise
      flights := flights
      calls := s.calls.set i (.waiting .caller { config with
        retry := true
        clientRequestId := some headers.clientRequestId
        clientRequestAttempt := some 2 } (some 401) f)
      history := s.history ++ [.answered i config.url (some 401)] } := by
  have hlt := (List.getElem?_eq_some_iff.mp hi).1
  have hself : ∀ e ∈ [Entry.answered i config.url (some 401)], e.isAbout i = true := by
    intro e he
    rw [List.mem_singleton.mp he]
    exact beq_self_eq_true i
  have hes : ∀ e ∈ [Entry.answered i config.url (some 401)], ∀ j, j ≠ i → e.isAbout j = false :=
    fun e he j hj => isAbout_ne (hself e he) hj
  have hsent : .sent i .caller config.url headers ∈ s.history :=
    mem_of_about (habout ▸ List.mem_singleton.mpr rfl)
  have hlength : ∀ {d : Call}, (s.calls.set i d).length = s.calls.length := List.length_set
  have hlast : about i s.history = [] ++ [.sent i .caller config.url headers] := habout
  refine {
    lawful := h.lawful.concat (.answered hlast)
    journey := h.journeys rfl hes (fun j hj => List.getElem?_set_ne (Ne.symm hj))
      (List.getElem?_set_self hlt) ?_
    unknown := h.unknowns rfl hes (hlt.trans_eq hlength.symm) hlength.ge
    promise := fun f' flight' hf' hopen' => ?_
    pending := fun f' hf' => ?_
    queued := fun f' cause' hf' => ?_
    posting := fun f' k hf' => ?_
    posted := fun k hk => ?_
    waiting := fun j sender config' status f' hj => ?_
    departing := hdeparting }
  · rw [habout, about_eq_self hself]
    exact .waiting rfl rfl rfl hbypass
  · rcases hnew f' flight' hf' with hf' | ⟨-, hf'⟩
    · exact hpromise f' (h.promise f' flight' hf' hopen')
    · exact hf'
  · obtain rfl := Option.some.inj (hf.symm.trans hf')
    exact ⟨flight, hflight, hopen⟩
  · rcases hnew f' _ hf' with hf' | ⟨hqueued, -⟩
    · exact h.queueds rfl hf'
    · obtain rfl := Flight.queued.inj hqueued
      exact ⟨i, _, _, List.mem_append_left _ hsent,
        List.mem_append_right _ (List.mem_singleton.mpr rfl), hcause⟩
  · rcases hnew f' _ hf' with hf' | ⟨hqueued, -⟩
    · exact (h.posting f' k hf').append
    · cases hqueued
  · obtain ⟨headers', hmem⟩ := hk
    have hmem := (List.mem_append.mp hmem).resolve_right fun hin => by
      cases List.mem_singleton.mp hin
    exact (h.posted k ⟨headers', hmem⟩).imp Finished.append fun ⟨f', hf'⟩ => ⟨f', hold f' _ hf'⟩
  · by_cases hji : j = i
    · subst hji
      obtain ⟨-, rfl, -, rfl⟩ := Call.waiting.inj
        (Option.some.inj ((List.getElem?_set_self hlt).symm.trans hj))
      exact ⟨flight, hflight, hpromised⟩
    · obtain ⟨flight', hflight', hpromised'⟩ := h.waiting j sender config' status f'
        ((List.getElem?_set_ne (Ne.symm hji)).symm.trans hj)
      exact ⟨flight', hold f' flight' hflight', hpromised'.append⟩

/-- A call that joins the refresh under way waits for its promise. -/
theorem Inv.wait_current (h : Inv s) {config : RetryableRequestConfig} {headers : Headers}
    (hi : s.calls[i]? = some (.sent .caller config)) (hdrained : s.Drained)
    (habout : about i s.history = [.sent i .caller config.url headers])
    (hbypass : bypasses config.url = false) {f : ℕ} (hcurrent : s.refreshPromise = some f)
    {deleted : Bool}
    (hdeparting : deleted = true → Departing (s.history ++ [.answered i config.url (some 401)])) :
    Inv { s with
      accountDeleted := deleted
      calls := s.calls.set i (.waiting .caller { config with
        retry := true
        clientRequestId := some headers.clientRequestId
        clientRequestAttempt := some 2 } (some 401) f)
      history := s.history ++ [.answered i config.url (some 401)] } := by
  obtain ⟨flight, hflight, hunsettled⟩ := h.pending f hcurrent
  have hpromised : Promised (s.history ++ [.answered i config.url (some 401)]) i config.url
      flight := by
    refine ⟨s.history, [], rfl, ?_⟩
    cases flight with
    | queued cause => trivial
    | settled ok => exact absurd rfl (hunsettled ok)
    | posting k =>
      -- The refresh has not been answered, or its promise would have run.
      have hready := hdrained.1 _ (List.mem_of_getElem? hflight)
      rw [← Bool.not_eq_true] at hready
      exact ⟨(h.posting f k hflight).append,
        h.not_finished (Option.not_isSome_iff_eq_none.mp hready)⟩
  have hwait := h.wait hi habout hbypass rfl (fun _ _ hf => hf) (fun _ _ hf => .inl hf)
    (fun _ hf => hf) hcurrent hflight hunsettled hpromised hdeparting
  rw [hcurrent] at hwait
  rw [hcurrent]
  exact hwait

/-- A call that finds no refresh under way queues one and waits for its promise. -/
theorem Inv.wait_new (h : Inv s) {config : RetryableRequestConfig} {headers : Headers}
    (hi : s.calls[i]? = some (.sent .caller config))
    (habout : about i s.history = [.sent i .caller config.url headers])
    (hbypass : bypasses config.url = false) (hcurrent : s.refreshPromise = none)
    {deleted : Bool}
    (hdeparting : deleted = true → Departing (s.history ++ [.answered i config.url (some 401)])) :
    Inv { s with
      accountDeleted := deleted
      refreshPromise := some s.flights.length
      flights := s.flights ++ [.queued (some headers.clientRequestId)]
      calls := s.calls.set i (.waiting .caller { config with
        retry := true
        clientRequestId := some headers.clientRequestId
        clientRequestAttempt := some 2 } (some 401) s.flights.length)
      history := s.history ++ [.answered i config.url (some 401)] } := by
  have hlast : (s.flights ++ [Flight.queued (some headers.clientRequestId)])[s.flights.length]? =
      some (.queued (some headers.clientRequestId)) := List.getElem?_concat_length
  exact h.wait hi habout hbypass rfl (fun _ _ hf => getElem?_append_of_some hf _)
    (fun f flight hf => (getElem?_concat_cases hf).imp_right fun ⟨hlen, hqueued⟩ =>
      ⟨hqueued, congrArg some hlen.symm⟩)
    (fun f hf => by cases hcurrent.symm.trans hf) rfl hlast nofun ⟨s.history, [], rfl, trivial⟩
    hdeparting

/-- Receiving an answer keeps the invariant. -/
theorem Inv.receive (h : Inv s) {sender : Sender} {config : RetryableRequestConfig}
    (hi : s.calls[i]? = some (.sent sender config)) (hdrained : s.Drained) (uuid : ℕ)
    (status : Option ℕ) : Inv (s.receive uuid i sender config status) := by
  unfold Client.receive
  dsimp only
  split
  · next hok =>
    refine h.settle hi (d := .resolved) (e := .resolved i) (by simp) (beq_self_eq_true i) (by simp)
      (.resolved (about_answer ..) hok) (fun _ => .resolved) fun hdeleted => ?_
    have hdeparting : Departing (s.history ++ [.answered i config.url status]) := by
      refine (h.departing hdeleted).append fun _ _ _ hmem hfail => ?_
      obtain ⟨-, -, rfl⟩ := Entry.answered.inj (List.mem_singleton.mp hmem)
      cases hok.symm.trans hfail
    exact hdeparting.append fun _ _ _ hmem => by cases List.mem_singleton.mp hmem
  next hfail =>
  have hfail : isSuccess status = false := by simpa using hfail
  split
  swap
  · next hnot =>
    refine h.settle hi (d := .rejected status) (e := .rejected i status)
      (by simp) (beq_self_eq_true i) (by simp)
      (.rejected (about_answer ..) hfail ?_) (fun _ => .rejected) fun hmark => ?_
    · rintro rfl
      exact excused_of_answer h hi ((Bool.not_eq_true _).mp hnot)
    · exact (departing_of_answer h config.url status hmark).append fun _ _ _ hmem => by
        cases List.mem_singleton.mp hmem
  next hattempt =>
  have hfacts : status = some 401 ∧ config.retry = false ∧
      (shouldBypassRefresh s.accountDeleted config.url).1 = false := by
    simpa [shouldAttemptAuthRefresh, Client.log, and_assoc] using hattempt
  obtain ⟨rfl, hretry, hopen⟩ := hfacts
  have hbypass : bypasses config.url = false := by
    unfold shouldBypassRefresh at hopen
    split at hopen
    · next hurl => rw [hurl]; decide
    split at hopen
    · cases hopen
    · exact hopen
  have hjourney := h.journey i _ hi
  generalize hpast : about i s.history = past at hjourney
  cases hjourney with
  | again htrue => cases hretry.symm.trans htrue
  | @sent _ _ headers _ hid hfirst hposted =>
  cases sender with
  | coordinator =>
    rw [hposted rfl] at hbypass
    exact absurd hbypass (by decide)
  | caller =>
  have hone : resolveClientRequestAttempt config = 1 := by
    unfold resolveClientRequestAttempt
    rw [hfirst]
    rfl
  have hsame : resolveClientRequestId uuid config = headers.clientRequestId := by
    unfold resolveClientRequestId
    rw [hid]
    rfl
  rw [hone, hsame]
  have hdeparting := departing_of_answer h (i := i) config.url (some 401)
  cases hcurrent : s.refreshPromise with
  | some f =>
    have hwait := h.wait_current hi hdrained hpast hbypass hcurrent hdeparting
    rw [hcurrent] at hwait
    simp only [Client.waitForRefresh, Client.log, hcurrent]
    exact hwait
  | none =>
    simp only [Client.waitForRefresh, Client.log, hcurrent]
    exact h.wait_new hi hpast hbypass hcurrent hdeparting

/-- What has happened to a call that waits. -/
theorem Inv.waits (h : Inv s) {sender : Sender} {config : RetryableRequestConfig}
    {status : Option ℕ} {f : ℕ} (hi : s.calls[i]? = some (.waiting sender config status f)) :
    sender = .caller ∧ status = some 401 ∧ ∃ headers,
      about i s.history = [.sent i .caller config.url headers, .answered i config.url (some 401)] ∧
      config.retry = true ∧ config.clientRequestId = some headers.clientRequestId ∧
      config.clientRequestAttempt = some 2 ∧ bypasses config.url = false := by
  have hjourney := h.journey i _ hi
  generalize about i s.history = past at hjourney
  cases hjourney with
  | waiting hretry hid hattempt hbypass => exact ⟨rfl, rfl, _, rfl, hretry, hid, hattempt, hbypass⟩

/-- Rejecting the calls that waited for a failed flight keeps the invariant. -/
theorem Inv.rejectWaiting (h : Inv s) {sender : Sender} {config : RetryableRequestConfig}
    {status : Option ℕ} {f : ℕ} (hi : s.calls[i]? = some (.waiting sender config status f))
    (hf : s.flights[f]? = some (.settled false)) : Inv (s.reject i status) := by
  obtain ⟨rfl, rfl, headers, habout, -⟩ := h.waits hi
  obtain ⟨flight, hflight, before, after, hpast, hend⟩ := h.waiting i _ config _ f hi
  obtain rfl := Option.some.inj (hf.symm.trans hflight)
  obtain ⟨k, hposted, status, hmem⟩ := hend
  obtain ⟨between, rest, hsplit⟩ := exists_between_of_mem hpast hmem
  have hself : ∀ e ∈ [Entry.rejected i (some 401)], e.isAbout i = true := by
    intro e he
    rw [List.mem_singleton.mp he]
    exact beq_self_eq_true i
  have hlast : about i s.history =
      [.sent i .caller config.url headers] ++ [.answered i config.url (some 401)] := habout
  have hlawful : Lawful s.history (.rejected i (some 401)) :=
    .rejected hlast rfl fun _ => .failed hsplit hposted
  refine h.goOn hi (.rejected (some 401)) [.rejected i (some 401)] (by simp)
    (fun e he j hj => isAbout_ne (hself e he) hj) (h.lawful.concat hlawful) ?_ ?_
    (fun hdeleted => (h.departing hdeleted).append fun _ _ _ hin => by
      cases List.mem_singleton.mp hin) _
  · rw [about_eq_self hself]
    exact .rejected
  · rintro k ⟨headers', hin⟩
    cases List.mem_singleton.mp hin

/-- Repeating a call after a successful flight keeps the invariant. -/
theorem Inv.sendAgain (h : Inv s) {sender : Sender} {config : RetryableRequestConfig}
    {status : Option ℕ} {f : ℕ} (hi : s.calls[i]? = some (.waiting sender config status f))
    (hf : s.flights[f]? = some (.settled true)) (uuid : ℕ) : Inv (s.send uuid i sender config) := by
  have hlt := (List.getElem?_eq_some_iff.mp hi).1
  obtain ⟨rfl, rfl, headers, habout, hretry, hid, hattempt, hbypass⟩ := h.waits hi
  obtain ⟨flight, hflight, before, after, hpast, hend⟩ := h.waiting i _ config _ f hi
  obtain rfl := Option.some.inj (hf.symm.trans hflight)
  obtain ⟨k, hposted, hmem⟩ := hend
  obtain ⟨between, rest, hsplit⟩ := exists_between_of_mem hpast hmem
  let again := (interceptRequest uuid s.previousClientRequestId config).2
  have hagain : again.axiosRetry = true := by
    simp only [again, interceptRequest, hretry, Bool.true_or]
  have hsameId : again.clientRequestId = headers.clientRequestId := by
    simp only [again, interceptRequest, resolveClientRequestId, hid]
    rfl
  have htwo : again.clientRequestAttempt = 2 := by
    simp only [again, interceptRequest, resolveClientRequestAttempt, hattempt]
    rfl
  have hself : ∀ e ∈ [Entry.sent i .caller config.url again], e.isAbout i = true := by
    intro e he
    rw [List.mem_singleton.mp he]
    exact beq_self_eq_true i
  have hgoOn := h.goOn hi (.sent .caller (interceptRequest uuid s.previousClientRequestId config).1)
    [.sent i .caller config.url again] (by simp)
    (fun e he j hj => isAbout_ne (hself e he) hj) (h.lawful.concat (.again habout hsplit hposted
      hbypass hagain hsameId htwo)) ?_ ?_ (fun hdeleted => (h.departing hdeleted).append
        fun _ _ _ hin => by cases List.mem_singleton.mp hin)
    (some (resolveClientRequestId uuid config))
  · unfold Client.send
    dsimp only
    rw [if_pos hlt]
    exact hgoOn
  · rw [about_eq_self hself, habout]
    exact .again hretry hagain
  · rintro k ⟨headers', hin⟩
    cases List.mem_singleton.mp hin

/-- Every event keeps the invariant. -/
theorem Inv.step (h : Inv s) {e : Event} (hstep : s.step e = some s') : Inv s' := by
  cases Client.steps_of_step hstep with
  | start url uuid => exact h.start url uuid
  | deleteAccount => exact h.deleteAccount
  | respond status uuid hi hdrained => exact h.receive hi hdrained uuid status
  | refresh uuid hf => exact h.refresh hf uuid
  | clear hf hk => exact h.clear hf hk
  | rejectWaiting uuid hi hf => exact h.rejectWaiting hi hf
  | sendAgain uuid hi hf => exact h.sendAgain hi hf uuid

end Steps

/-- The invariant holds when the page is loaded. -/
theorem inv_initial : Inv .initial where
  lawful := justified_nil
  journey := nofun
  unknown := fun _ _ => rfl
  promise := nofun
  pending := nofun
  queued := nofun
  posting := nofun
  posted := fun _ ⟨_, hmem⟩ => by cases hmem
  waiting := nofun
  departing := nofun

/-- The invariant holds after every run. -/
theorem inv_run {es : List Event} {s : Client}
    (hrun : Run (Graph Client.step) .initial es s) : Inv s :=
  hrun.invariant (fun _ _ _ h hstep => h.step hstep) inv_initial

/-- In every run, everything that the client sends and gives back is lawful. -/
theorem client_lawful {es : List Event} {s : Client}
    (hrun : Run (Graph Client.step) .initial es s) : Justified Lawful s.history :=
  (inv_run hrun).lawful

/-- Two calls fail while the session has expired, wait for one refresh and are sent again. -/
theorem client_lawful_coalesced : ∃ s, Run (Graph Client.step) .initial
    [.start "/api/feed" 1, .start "/api/posts" 2, .respond 0 (some 401) 0, .refresh 0 3,
      .respond 1 (some 401) 0, .respond 2 (some 200) 0, .clear 0, .resume 1 0, .resume 0 0,
      .respond 0 (some 200) 0, .respond 1 (some 401) 0] s ∧
    Justified Lawful s.history := by
  obtain ⟨s, hs⟩ := Option.isSome_iff_exists.mp (by decide +kernel :
    (exec Client.step .initial [.start "/api/feed" 1, .start "/api/posts" 2,
      .respond 0 (some 401) 0, .refresh 0 3, .respond 1 (some 401) 0, .respond 2 (some 200) 0,
      .clear 0, .resume 1 0, .resume 0 0, .respond 0 (some 200) 0,
      .respond 1 (some 401) 0]).isSome = true)
  exact ⟨s, exec_run hs, client_lawful (exec_run hs)⟩

end Ascendance.AuthRefresh
