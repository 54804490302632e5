import Mathlib.Data.Set.Basic
import HwoodiwissHelper.GitHub.InstallationTokens
import HwoodiwissHelper.Library.Separated

/-!
# Keys of cached tokens

`CreateCacheKey` writes the installation, the permissions and the repositories into one text. The
installation and the permissions can be read back from it. The names of the repositories are joined
with an underscore, which names may have in them: what can be read back are the pieces between
underscores, so that a token for one list of repositories is returned for another one.
-/

namespace HwoodiwissHelper.GitHub

open ExpiringCache Separated Transition

theorem isDigit_of_mem_repr {c : Char} {n : ℕ} (h : c ∈ n.repr.toList) : c.isDigit = true := by
  rw [Nat.toList_repr] at h
  exact Nat.isDigit_of_mem_toDigits (by decide) (by decide) h

theorem mem_repr {c : Char} {a : Int} (h : c ∈ a.repr.toList) : c = '-' ∨ c.isDigit = true := by
  rw [Int.repr_eq_if] at h
  split at h
  · exact .inr (isDigit_of_mem_repr h)
  · rw [String.toList_append, List.mem_append] at h
    rcases h with h | h
    · exact .inl (by simpa using h)
    · exact .inr (isDigit_of_mem_repr h)

theorem natRepr_injective : Function.Injective Nat.repr := by
  intro m n h
  have hdigits : Nat.toDigits 10 m = Nat.toDigits 10 n := by
    rw [← Nat.toList_repr, ← Nat.toList_repr, h]
  have hread := congrArg (Nat.ofDigitChars 10 · 0) hdigits
  simpa only [Nat.ofDigitChars_toDigits (by decide : 1 < 10) (Nat.le_refl 10)] using hread

theorem minus_append_ne_repr (m n : ℕ) : "-" ++ m.repr ≠ n.repr := by
  intro h
  have hminus : '-' ∈ n.repr.toList := by simp [← h]
  exact absurd (isDigit_of_mem_repr hminus) (by decide)

theorem intRepr_injective : Function.Injective Int.repr := by
  intro a b h
  rw [Int.repr_eq_if, Int.repr_eq_if] at h
  split at h <;> split at h
  · have hab := natRepr_injective h
    omega
  · exact absurd h.symm (minus_append_ne_repr _ _)
  · exact absurd h (minus_append_ne_repr _ _)
  · have hab := natRepr_injective ((String.append_right_inj "-").mp h)
    omega

theorem underscore_notMem_repr (a : Int) : '_' ∉ a.repr.toList := by
  intro h
  rcases mem_repr h with h | h <;> exact absurd h (by decide)

theorem colon_notMem_repr (a : Int) : ':' ∉ a.repr.toList := by
  intro h
  rcases mem_repr h with h | h <;> exact absurd h (by decide)

theorem int32_injective : Function.Injective (toString : Int32 → String) := by
  intro value value' h
  have hrepr : value.toInt.repr = value'.toInt.repr := h
  exact Int32.toInt_inj.mp (intRepr_injective hrepr)

theorem scope_plain (scope : InstallationScope) :
    '_' ∉ (toString scope).toList ∧ ':' ∉ (toString scope).toList := by
  cases scope with
  | pullRequests => decide
  | undefined value h => exact ⟨underscore_notMem_repr _, colon_notMem_repr _⟩

theorem operation_plain (operation : InstallationOperation) :
    '_' ∉ (toString operation).toList := by
  cases operation with
  | write => decide
  | undefined value h => exact underscore_notMem_repr _

theorem repr_ne_name {a : Int} {name : String} {c : Char} (hc : c ∈ name.toList)
    (hname : c ≠ '-' ∧ c.isDigit = false) : a.repr ≠ name := by
  rintro rfl
  rcases mem_repr hc with h | h
  · exact hname.1 h
  · rw [hname.2] at h
    cases h

theorem scope_injective : Function.Injective (toString : InstallationScope → String) := by
  have hname (value : Int32) : toString value ≠ "PullRequests" :=
    repr_ne_name (c := 'P') (by decide) (by decide)
  intro scope scope' h
  cases scope with
  | pullRequests =>
    cases scope' with
    | pullRequests => rfl
    | undefined value => exact absurd h.symm (hname value)
  | undefined value =>
    cases scope' with
    | pullRequests => exact absurd h (hname value)
    | undefined value' =>
      obtain rfl : value = value' := int32_injective h
      rfl

theorem operation_injective : Function.Injective (toString : InstallationOperation → String) := by
  have hname (value : Int32) : toString value ≠ "Write" :=
    repr_ne_name (c := 'W') (by decide) (by decide)
  intro operation operation' h
  cases operation with
  | write =>
    cases operation' with
    | write => rfl
    | undefined value => exact absurd h.symm (hname value)
  | undefined value =>
    cases operation' with
    | write => exact absurd h (hname value)
    | undefined value' =>
      obtain rfl : value = value' := int32_injective h
      rfl

def permissionField (permission : InstallationScope × InstallationOperation) :
    List Char × List Char :=
  ((toString permission.1).toList, (toString permission.2).toList)

theorem permissionField_plain (permission : InstallationScope × InstallationOperation) :
    Plain '_' ':' (permissionField permission) :=
  ⟨(scope_plain permission.1).1, (scope_plain permission.1).2, operation_plain permission.2⟩

theorem permissionField_injective : Function.Injective permissionField := by
  intro permission permission' h
  obtain ⟨hscope, hoperation⟩ := Prod.mk.inj h
  exact Prod.ext (scope_injective (String.toList_injective hscope))
    (operation_injective (String.toList_injective hoperation))

/-- The text of a name; a null has none. -/
def nameText (name : Option String) : List Char := (name.getD "").toList

def repositoriesText : Repositories → List Char
  | none => []
  | some repositories =>
    '_' :: ("for".toList ++ '_' :: ['_'].intercalate (repositories.map nameText))

theorem repositoriesText_foreign (repositories : Repositories) :
    Foreign '_' ':' (repositoriesText repositories) := by
  cases repositories with
  | none => exact .nil
  | some repositories => exact .cons _ _ (by decide)

theorem toList_permission (permission : InstallationScope × InstallationOperation) :
    (toString permission.1 ++ ":" ++ toString permission.2).toList =
      fieldText ':' (permissionField permission) := by
  rw [String.toList_append, String.toList_append, List.append_assoc]
  rfl

theorem toList_repositories (repositories : List (Option String)) :
    ("_for_" ++ "_".intercalate (repositories.map (Option.getD · ""))).toList =
      repositoriesText (some repositories) := by
  rw [String.toList_append, String.toList_intercalate, List.map_map]
  rfl

theorem toList_createCacheKey (installationId : Int) (permissions : Permissions)
    (repositories : Repositories) :
    (createCacheKey installationId permissions repositories).toList =
      "installation_token_".toList ++ (installationId.repr.toList ++ '_' :: ("with_".toList ++
        fields '_' ':' (permissions.pairs.map permissionField)
          (repositoriesText repositories))) := by
  have hpermissions : ("_".intercalate (permissions.pairs.map fun permission =>
      toString permission.1 ++ ":" ++ toString permission.2)).toList =
        ['_'].intercalate ((permissions.pairs.map permissionField).map (fieldText ':')) := by
    rw [String.toList_intercalate, List.map_map, List.map_map]
    exact congrArg _ (List.map_congr_left fun permission _ => toList_permission permission)
  have hkey (suffix : String) :
      ("installation_token_" ++ installationId.repr ++ "_with_" ++
        "_".intercalate (permissions.pairs.map fun permission =>
          toString permission.1 ++ ":" ++ toString permission.2) ++ suffix).toList =
        "installation_token_".toList ++ (installationId.repr.toList ++ '_' :: ("with_".toList ++
          fields '_' ':' (permissions.pairs.map permissionField) suffix.toList)) := by
    simp only [String.toList_append, hpermissions, fields, List.append_assoc]
    rfl
  cases repositories with
  | none => exact hkey ""
  | some repositories =>
    rw [← toList_repositories]
    exact hkey ("_for_" ++ "_".intercalate (repositories.map (Option.getD · "")))

structure TokenArguments where
  installationId : Int
  permissions : Permissions
  repositories : Repositories
  deriving DecidableEq

/-- What is left of names of repositories between underscores. -/
def namePieces (repositories : List (Option String)) : List (List Char) :=
  pieces '_' (repositories.map nameText)

namespace TokenArguments

def cacheKey (x : TokenArguments) : String :=
  createCacheKey x.installationId x.permissions x.repositories

/-- One installation, one set of permissions, one list of repositories. -/
structure Same (x y : TokenArguments) : Prop where
  installationId : x.installationId = y.installationId
  permissions : ∀ permission,
    permission ∈ x.permissions.pairs ↔ permission ∈ y.permissions.pairs
  repositories : x.repositories = y.repositories

/-- For one installation and the same permissions in the same order, two lists of repositories whose
names have the same pieces between underscores. -/
structure Confusable (x y : TokenArguments) : Prop where
  installationId : x.installationId = y.installationId
  permissions : x.permissions = y.permissions
  repositories : ∃ r r', x.repositories = some r ∧ y.repositories = some r' ∧ r ≠ r' ∧
    namePieces r = namePieces r'

theorem Confusable.not_same {x y : TokenArguments} (h : x.Confusable y) : ¬ x.Same y := by
  obtain ⟨-, -, r, r', hr, hr', hne, -⟩ := h
  intro hsame
  have hrepositories := hsame.repositories
  rw [hr, hr'] at hrepositories
  exact hne (Option.some.inj hrepositories)

end TokenArguments

theorem repositoriesText_eq_iff {r r' : List (Option String)} :
    repositoriesText (some r) = repositoriesText (some r') ↔ namePieces r = namePieces r' := by
  rw [namePieces, namePieces, ← intercalate_eq_iff]
  simp [repositoriesText]

theorem repositoriesText_none_ne (r : List (Option String)) :
    repositoriesText none ≠ repositoriesText (some r) := by
  simp [repositoriesText]

/-- Everything but the names of the repositories is read back from a key. -/
theorem cacheKey_eq_iff {x y : TokenArguments} :
    x.cacheKey = y.cacheKey ↔ x.installationId = y.installationId ∧
      x.permissions = y.permissions ∧
        repositoriesText x.repositories = repositoriesText y.repositories := by
  constructor
  · intro h
    have htext := congrArg String.toList h
    rw [TokenArguments.cacheKey, TokenArguments.cacheKey, toList_createCacheKey,
      toList_createCacheKey, List.append_cancel_left_eq] at htext
    obtain ⟨hid, -, hbehind⟩ := append_cons_inj (underscore_notMem_repr _)
      (underscore_notMem_repr _) htext
    have hplain (permissions : Permissions) :
        ∀ field ∈ permissions.pairs.map permissionField, Plain '_' ':' field := by
      intro field hfield
      obtain ⟨permission, -, rfl⟩ := List.mem_map.mp hfield
      exact permissionField_plain permission
    obtain ⟨hpermissions, hrepositories⟩ := fields_inj (by decide) (hplain _) (hplain _)
      (repositoriesText_foreign _) (repositoriesText_foreign _)
      (List.append_cancel_left hbehind)
    have hpairs := permissionField_injective.list_map hpermissions
    refine ⟨intRepr_injective (String.toList_injective hid), ?_, hrepositories⟩
    cases hx : x.permissions
    cases hy : y.permissions
    simp_all
  · rintro ⟨hid, hpermissions, hrepositories⟩
    apply String.toList_injective
    rw [TokenArguments.cacheKey, TokenArguments.cacheKey, toList_createCacheKey,
      toList_createCacheKey, hid, hpermissions, hrepositories]

theorem same_or_confusable {x y : TokenArguments} (h : x.cacheKey = y.cacheKey) :
    x.Same y ∨ x.Confusable y := by
  obtain ⟨hid, hpermissions, hrepositories⟩ := cacheKey_eq_iff.mp h
  have hsame (hr : x.repositories = y.repositories) : x.Same y :=
    ⟨hid, fun permission => by rw [hpermissions], hr⟩
  cases hx : x.repositories with
  | none =>
    cases hy : y.repositories with
    | none => exact .inl (hsame (hx.trans hy.symm))
    | some r' =>
      rw [hx, hy] at hrepositories
      exact absurd hrepositories (repositoriesText_none_ne r')
  | some r =>
    cases hy : y.repositories with
    | none =>
      rw [hx, hy] at hrepositories
      exact absurd hrepositories.symm (repositoriesText_none_ne r)
    | some r' =>
      rw [hx, hy, repositoriesText_eq_iff] at hrepositories
      by_cases hr : r = r'
      · exact .inl (hsame (by rw [hx, hy, hr]))
      · exact .inr ⟨hid, hpermissions, r, r', hx, hy, hr, hrepositories⟩

theorem TokenArguments.Confusable.cacheKey_eq {x y : TokenArguments} (h : x.Confusable y) :
    x.cacheKey = y.cacheKey := by
  obtain ⟨hid, hpermissions, r, r', hr, hr', -, hpieces⟩ := h
  refine cacheKey_eq_iff.mpr ⟨hid, hpermissions, ?_⟩
  rw [hr, hr', repositoriesText_eq_iff]
  exact hpieces

abbrev TokenRequest := TokenArguments × TokenEndpoint

abbrev TokenRun := History String (Option String) String Int TokenRequest Exception

def callStep (h : TokenRun) (c : Call Int TokenRequest) : Except Empty TokenRun :=
  let arguments := c.outcome.1
  .ok (h.record c (getInstallationToken h.cache c.now arguments.installationId
    arguments.permissions arguments.repositories c.outcome.2))

def requestedToken (c : TokenRequest) : Except Exception (Entry (Option String) Int) :=
  makeToken c.1.installationId c.1.permissions c.1.repositories c.2

/-- A call that made no request returned what an earlier one for the same arguments was
answered. -/
def OwnTokens (h : TokenRun) : Prop :=
  ∀ v earlier, v :: earlier <:+ h.visits → v.ran = false →
    ∃ w ∈ earlier, w.outcome.1.Same v.outcome.1 ∧
      ∃ e, w.Made requestedToken e ∧ v.result = .ok (e.value.getD "")

/-- Arguments that have keys of their own, and in no run of calls for them a token of one is
returned for another. -/
structure Separate (s : Set TokenArguments) : Prop where
  keys : ∀ x ∈ s, ∀ y ∈ s, x.cacheKey = y.cacheKey → x.Same y
  tokens : ∀ calls h, run callStep .start calls = .ok h → (∀ v ∈ h.visits, v.outcome.1 ∈ s) →
    OwnTokens h

theorem sourced_run {calls : List (Call Int TokenRequest)} {h : TokenRun}
    (hr : run callStep .start calls = .ok h) :
    Sourced (·.getD "") requestedToken (·.1.cacheKey) h := by
  refine run_invariant ?_ (Sourced.start _ _ _) hr
  intro s c s' hs hstep
  obtain rfl : s.call (·.getD "") requestedToken c.outcome.1.cacheKey c = s' :=
    Except.ok.inj hstep
  exact hs.call c

theorem ownTokens_of_keys {s : Set TokenArguments}
    (hkeys : ∀ x ∈ s, ∀ y ∈ s, x.cacheKey = y.cacheKey → x.Same y)
    {calls : List (Call Int TokenRequest)} {h : TokenRun} (hr : run callStep .start calls = .ok h)
    (hcalls : ∀ v ∈ h.visits, v.outcome.1 ∈ s) : OwnTokens h := by
  intro v earlier hsuffix hran
  obtain ⟨w, hw, hkey, e, hmade, hresult⟩ := (sourced_run hr).answered v earlier hsuffix hran
  have hv : v ∈ h.visits := hsuffix.mem List.mem_cons_self
  have hw' : w ∈ h.visits := hsuffix.mem (List.mem_cons_of_mem v hw)
  exact ⟨w, hw, hkeys _ (hcalls w hw') _ (hcalls v hv) hkey, e, hmade, hresult⟩

theorem separate_of_not_confusable {s : Set TokenArguments}
    (h : ∀ x ∈ s, ∀ y ∈ s, ¬ x.Confusable y) : Separate s := by
  have hkeys (x) (hx : x ∈ s) (y) (hy : y ∈ s) (hkey : x.cacheKey = y.cacheKey) : x.Same y :=
    (same_or_confusable hkey).resolve_right (h x hx y hy)
  exact ⟨hkeys, fun _ _ hr hcalls => ownTokens_of_keys hkeys hr hcalls⟩

/-- A key for one repository tells its name, but not an empty one from a null. -/
theorem cacheKey_singleton_iff {x y : TokenArguments} {name name' : Option String}
    (hx : x.repositories = some [name]) (hy : y.repositories = some [name']) :
    x.cacheKey = y.cacheKey ↔ x.installationId = y.installationId ∧
      x.permissions = y.permissions ∧ name.getD "" = name'.getD "" := by
  rw [cacheKey_eq_iff, hx, hy]
  simp [repositoriesText, nameText, String.toList_inj]

/-- Calls for one repository each, whose name is not null, never share a token. -/
theorem separate_singletons : Separate { x | ∃ name, x.repositories = some [some name] } := by
  apply separate_of_not_confusable
  rintro x ⟨name, hx⟩ y ⟨name', hy⟩ hconfusable
  obtain ⟨hid, hpermissions, hname⟩ := (cacheKey_singleton_iff hx hy).mp hconfusable.cacheKey_eq
  refine hconfusable.not_same ⟨hid, fun permission => by rw [hpermissions], ?_⟩
  rw [hx, hy]
  exact congrArg (fun name => some [some name]) hname

/-- The tokens of calls are kept apart exactly when the repositories of any two of them can be told
apart by the pieces between underscores. -/
theorem separate_iff (s : Set TokenArguments) :
    Separate s ↔ ∀ x ∈ s, ∀ y ∈ s, ¬ x.Confusable y := by
  constructor
  · intro h x hx y hy hconfusable
    exact hconfusable.not_same (h.keys x hx y hy hconfusable.cacheKey_eq)
  · exact separate_of_not_confusable

def helperArguments (repositories : List (Option String)) : TokenArguments :=
  ⟨5, pullRequestsWrite, some repositories⟩

def helperCall (now : Int) (repositories : List (Option String)) (token : String) : Call Int TokenRequest :=
  ⟨now, helperArguments repositories,
    endpointWithStatus 201 (some ⟨some token, ⟨36000000000, 0, by decide, by decide⟩⟩)⟩

def underscoreCalls : List (Call Int TokenRequest) :=
  [helperCall 0 ["helper_ui"] "one", helperCall 1 ["helper", "ui"] "two"]

/-- The token for one repository with an underscore in its name is returned for two others. -/
theorem underscore_shares_token :
    ¬ Separate {helperArguments ["helper_ui"], helperArguments ["helper", "ui"]} ∧
      ∃ h, run callStep .start underscoreCalls = .ok h ∧
        h.visits.map (fun v => (v.ran, v.result.toOption)) =
          [(false, some "one"), (true, some "one")] := by
  refine ⟨fun h => ?_, _, rfl, by decide +kernel⟩
  have hkeys : (helperArguments ["helper_ui"]).cacheKey =
      (helperArguments ["helper", "ui"]).cacheKey := by decide +kernel
  have hsame := h.keys _ (.inl rfl) _ (.inr rfl) hkeys
  exact absurd hsame.repositories (by decide)

end HwoodiwissHelper.GitHub
