import HwoodiwissHelper.GitHub.GitHubClient

/-!
# Sequences of installation-token calls

Calls for one installation, one set of permissions and one list of repositories share a cache
entry. As long as no request fails, every call returns a fresh token or a cached one that has more
than five minutes to live. After a request that failed the entry of the empty text stays, and no
later call asks for a token again.
-/

namespace HwoodiwissHelper.GitHub

open ExpiringCache Transition

section Calls

variable (installationId : Int) (permissions : Permissions) (repositories : Repositories)

abbrev TokenCall := Call Int TokenEndpoint

abbrev TokenVisit := Visit String Int TokenEndpoint Exception

abbrev TokenHistory := History String (Option String) String Int TokenEndpoint Exception

/-- One more call for the same installation, permissions and repositories. -/
def tokenStep (h : TokenHistory) (c : TokenCall) : Except Empty TokenHistory :=
  .ok (h.record c
    (getInstallationToken h.cache c.now installationId permissions repositories c.outcome))

def Failed (v : TokenVisit) : Prop :=
  v.ran = true ∧ ∃ problem,
    requestInstallationAccessToken installationId permissions repositories v.outcome =
      .failure problem

def Succeeded (v : TokenVisit) (r : InstallationTokenResponse) : Prop :=
  v.ran = true ∧
    requestInstallationAccessToken installationId permissions repositories v.outcome = .success r

/-- A call is safe: it returns the token that it was given or, if it asks for none, a token of an
earlier call that has more than five minutes to live; only a failed request makes an empty text, and
it is not remembered. -/
structure CallSafe (v : TokenVisit) (earlier : List TokenVisit) : Prop where
  returns :
    (∃ r token, Succeeded installationId permissions repositories v r ∧ r.token = some token ∧
      v.result = .ok token) ∨
    (v.ran = false ∧ ∃ w ∈ earlier, ∃ r token,
      Succeeded installationId permissions repositories w r ∧ r.token = some token ∧
        v.now < r.expiresAt.utcTicks - fiveMinutes ∧ v.result = .ok token) ∨
    (Failed installationId permissions repositories v ∧ v.result = .ok "")
  retries : ∀ w rest, earlier = w :: rest → Failed installationId permissions repositories w →
    v.ran = true

def AllCallsSafe (h : TokenHistory) : Prop :=
  ∀ v earlier, v :: earlier <:+ h.visits →
    CallSafe installationId permissions repositories v earlier

/-- No earlier request failed, and a response that the call will ask for has a token, and expires
at a time from which five minutes can be taken. -/
structure Answerable (h : TokenHistory) (c : TokenCall) : Prop where
  unfailed : ∀ w ∈ h.visits, ¬ Failed installationId permissions repositories w
  usable : h.cache.liveEntry c.now (createCacheKey installationId permissions repositories) =
    none → ∀ r, requestInstallationAccessToken installationId permissions repositories c.outcome =
      .success r → r.token ≠ none ∧ ∃ t, r.expiresAt.sub fiveMinutes = .ok t

variable {installationId permissions repositories}

abbrev makeToken (installationId : Int) (permissions : Permissions)
    (repositories : Repositories) (endpoint : TokenEndpoint) :
    Except Exception (Entry (Option String) Int) :=
  createToken (requestInstallationAccessToken installationId permissions repositories endpoint)

abbrev FaithfulTokens (installationId : Int) (permissions : Permissions)
    (repositories : Repositories) (h : TokenHistory) : Prop :=
  Faithful (makeToken installationId permissions repositories)
    (createCacheKey installationId permissions repositories) h

theorem FaithfulTokens.step {h h' : TokenHistory} {c : TokenCall}
    (hh : FaithfulTokens installationId permissions repositories h)
    (hs : tokenStep installationId permissions repositories h c = .ok h') :
    FaithfulTokens installationId permissions repositories h' := by
  obtain rfl := Except.ok.inj hs
  exact hh.call c

theorem Failed.made {v : TokenVisit} (h : Failed installationId permissions repositories v) :
    v.Made (makeToken installationId permissions repositories) ⟨some "", none⟩ := by
  obtain ⟨hran, problem, hproblem⟩ := h
  refine ⟨hran, ?_⟩
  simp [makeToken, hproblem, createToken]

theorem failed_or_succeeded_of_made {v : TokenVisit} {e : Entry (Option String) Int}
    (h : v.Made (makeToken installationId permissions repositories) e) :
    (Failed installationId permissions repositories v ∧ e = ⟨some "", none⟩) ∨
    ∃ r t, Succeeded installationId permissions repositories v r ∧
      r.expiresAt.sub fiveMinutes = .ok t ∧ e = ⟨r.token, some t.utcTicks⟩ := by
  obtain ⟨hran, hmake⟩ := h
  rcases createToken_eq_ok hmake with ⟨hfailed, rfl⟩ | ⟨r, t, hr, ht, rfl⟩
  · exact .inl ⟨⟨hran, hfailed⟩, rfl⟩
  · exact .inr ⟨r, t, ⟨hran, hr⟩, ht, rfl⟩

theorem exists_suffix_of_mem {α : Type} {v : α} {l : List α} (h : v ∈ l) (x : α) :
    ∃ w rest, w :: v :: rest <:+ x :: l := by
  induction l generalizing x with
  | nil => cases h
  | cons y l ih =>
    rcases List.mem_cons.mp h with rfl | h
    · exact ⟨x, l, List.suffix_refl _⟩
    · obtain ⟨w, rest, hs⟩ := ih h y
      exact ⟨w, rest, hs.trans (List.suffix_cons x _)⟩

/-- When the calls so far and the new one are safe, no earlier request failed: the call after it
would have asked again, and found the empty text in the cache. -/
theorem not_failed_of_safe {h h' : TokenHistory} {c : TokenCall}
    (hh : FaithfulTokens installationId permissions repositories h')
    (hs : tokenStep installationId permissions repositories h c = .ok h')
    (hsafe : AllCallsSafe installationId permissions repositories h') {w : TokenVisit}
    (hw : w ∈ h.visits) : ¬ Failed installationId permissions repositories w := by
  intro hfailed
  obtain ⟨v, rest, hsuffix⟩ : ∃ v rest, v :: w :: rest <:+ h'.visits := by
    obtain rfl := Except.ok.inj hs
    exact exists_suffix_of_mem hw _
  have hran : v.ran = true := (hsafe v _ hsuffix).retries w rest rfl hfailed
  have hcached : v.ran = false := hh.answers v w rest hsuffix _ hfailed.made
  simp [hran] at hcached

theorem CallSafe.token_of_succeeded {v : TokenVisit} {earlier : List TokenVisit}
    (h : CallSafe installationId permissions repositories v earlier) {r : InstallationTokenResponse}
    (hr : Succeeded installationId permissions repositories v r) :
    ∃ token, r.token = some token ∧ v.result = .ok token := by
  rcases h.returns with ⟨r', token, hr', htoken, hresult⟩ | ⟨hcached, -⟩ | ⟨⟨-, _, hfailed⟩, -⟩
  · obtain rfl : r = r' := Result.success.inj (hr.2.symm.trans hr'.2)
    exact ⟨token, htoken, hresult⟩
  · exact absurd (hr.1.symm.trans hcached) (by decide)
  · cases hr.2.symm.trans hfailed

theorem usable_of_safe {h h' : TokenHistory} {c : TokenCall}
    (hs : tokenStep installationId permissions repositories h c = .ok h')
    (hsafe : AllCallsSafe installationId permissions repositories h')
    (hdead :
      h.cache.liveEntry c.now (createCacheKey installationId permissions repositories) = none)
    {r : InstallationTokenResponse}
    (hr : requestInstallationAccessToken installationId permissions repositories c.outcome =
      .success r) : r.token ≠ none ∧ ∃ t, r.expiresAt.sub fiveMinutes = .ok t := by
  obtain rfl := Except.ok.inj hs
  obtain ⟨token, htoken, hresult⟩ :=
    (hsafe _ _ (List.suffix_refl _)).token_of_succeeded ⟨getOrCreate_ran hdead _, hr⟩
  refine ⟨by simp [htoken], ?_⟩
  cases ht : r.expiresAt.sub fiveMinutes with
  | ok t => exact ⟨t, rfl⟩
  | error ex =>
    simp [getInstallationToken, Answer.map, getOrCreate, hdead, createToken, hr, ht, bind,
      Except.bind] at hresult

/-- What an answerable call returns is allowed: no failed request left its empty text behind, and
the token in the cache is alive. -/
theorem Answerable.callSafe {h h' : TokenHistory} {c : TokenCall}
    (hh : FaithfulTokens installationId permissions repositories h)
    (hsafe : AllCallsSafe installationId permissions repositories h)
    (hs : tokenStep installationId permissions repositories h c = .ok h')
    (hc : Answerable installationId permissions repositories h c) :
    ∃ v, h'.visits = v :: h.visits ∧
      CallSafe installationId permissions repositories v h.visits := by
  have hretries {v : TokenVisit} (w : TokenVisit) (rest : List TokenVisit)
      (hrest : h.visits = w :: rest) (hfailed : Failed installationId permissions repositories w) :
      v.ran = true :=
    absurd hfailed (hc.unfailed w (by simp [hrest]))
  obtain rfl : h.call (·.getD "") (makeToken installationId permissions repositories) _ c = h' :=
    Except.ok.inj hs
  rcases call_outcome (·.getD "") (makeToken installationId permissions repositories) _ h c with
    ⟨e, hstored, hlive, hcall⟩ | ⟨ex, hmake, hdead, hcall⟩ | ⟨e, hmake, hdead, hcall⟩
  all_goals refine ⟨_, by rw [hcall], ?_, hretries⟩
  · -- a live entry was made by an earlier request, and not by one that failed
    obtain ⟨w, hw, hmade⟩ := hh.stored e hstored
    rcases failed_or_succeeded_of_made hmade with ⟨hfailed, -⟩ | ⟨r, t, hr, ht, rfl⟩
    · exact absurd hfailed (hc.unfailed w hw)
    · have hnow : c.now < t.utcTicks := (Entry.live_until _ _ _).mp hlive
      rw [DateTimeOffset.utcTicks_of_sub ht] at hnow
      obtain ⟨later, before, hvisits⟩ := List.append_of_mem hw
      obtain ⟨token, htoken, -⟩ :=
        (hsafe w before ⟨later, hvisits.symm⟩).token_of_succeeded hr
      exact .inr (.inl ⟨rfl, w, hw, r, token, hr, htoken, hnow, by simp [htoken]⟩)
  · obtain ⟨r, hr, hsub⟩ := createToken_eq_error hmake
    obtain ⟨-, t, ht⟩ := hc.usable hdead r hr
    rw [ht] at hsub
    cases hsub
  · rcases createToken_eq_ok hmake with ⟨hfailed, rfl⟩ | ⟨r, t, hr, -, rfl⟩
    · exact .inr (.inr ⟨⟨rfl, hfailed⟩, rfl⟩)
    · obtain ⟨token, htoken⟩ := Option.ne_none_iff_exists'.mp (hc.usable hdead r hr).1
      exact .inl ⟨r, token, ⟨rfl, hr⟩, htoken, by simp [htoken]⟩

theorem allCallsSafe_step_iff {h h' : TokenHistory} {c : TokenCall}
    (hh : FaithfulTokens installationId permissions repositories h)
    (hsafe : AllCallsSafe installationId permissions repositories h)
    (hs : tokenStep installationId permissions repositories h c = .ok h') :
    AllCallsSafe installationId permissions repositories h' ↔
      Answerable installationId permissions repositories h c := by
  constructor
  · intro hsafe'
    refine ⟨?_, ?_⟩
    · intro w hw
      exact not_failed_of_safe (hh.step hs) hs hsafe' hw
    · intro hdead r hr
      exact usable_of_safe hs hsafe' hdead hr
  · intro hc v earlier hsuffix
    obtain ⟨w, hvisits, hw⟩ := hc.callSafe hh hsafe hs
    rw [hvisits] at hsuffix
    rcases List.suffix_cons_iff.mp hsuffix with heq | hsuffix
    · obtain ⟨rfl, rfl⟩ := List.cons.inj heq
      exact hw
    · exact hsafe v earlier hsuffix

variable (installationId permissions repositories)

/-- A run of calls is safe exactly when none of them comes after a request that failed, and the
responses it asks for have tokens and expirations that can be represented. -/
theorem installationTokens_safe_iff (calls : List TokenCall) :
    Always (tokenStep installationId permissions repositories)
        (AllCallsSafe installationId permissions repositories) .start calls ↔
      Along (tokenStep installationId permissions repositories)
        (Answerable installationId permissions repositories) .start calls :=
  always_iff_along (I := FaithfulTokens installationId permissions repositories)
    (fun _ _ _ hh hs => hh.step hs)
    (fun _ _ _ hh hsafe hs => allCallsSafe_step_iff hh hsafe hs)
    (Faithful.start _ _) (fun v earlier h => by simp [History.start] at h) calls

end Calls

def pullRequestsWrite : Permissions := ⟨[(.pullRequests, .write)], by decide⟩

def endpointWithStatus (statusCode : Int) (response : Option InstallationTokenResponse) :
    TokenEndpoint where
  getGithubJwt := .ok "jwt"
  sendAsync _ := .ok {
    statusCode, readAsString := .ok "Internal Server Error", readFromJson := .ok response }

def callsAfterOutage : List TokenCall :=
  [⟨0, endpointWithStatus 500 none⟩,
    ⟨600000000, endpointWithStatus 201
      (some ⟨some "ghs", ⟨1000000000000, 0, by decide, by decide⟩⟩)⟩]

/-- One failed request, and the next call returns an empty text without asking again. -/
theorem installationTokens_unsafe_after_outage :
    ¬ ∀ calls : List TokenCall,
      Always (tokenStep 5 pullRequestsWrite (some ["helper"]))
        (AllCallsSafe 5 pullRequestsWrite (some ["helper"])) .start calls := by
  intro hall
  have hsafe := ((hall callsAfterOutage).2 _ rfl).2 _ rfl _ _ (List.suffix_refl _)
  have hfailed : Failed 5 pullRequestsWrite (some ["helper"])
      ⟨⟨0, endpointWithStatus 500 none⟩, true, .ok ""⟩ := ⟨rfl, _, rfl⟩
  exact absurd (hsafe.retries _ _ rfl hfailed) (by decide +kernel)

end HwoodiwissHelper.GitHub
