import Mathlib
import Tako.FallibleLoops
import Tako.ServiceHosts

/-! What a deployment is known by: the id as it was given, for locks, apps, rows and directories,
or the name and the environment, for the app itself, deletions and backups. -/
namespace Tako.Deployments
open Texts Network List
def isNameChar (c : Char) : Bool := c.isLower || c.isDigit || c = '-'

def validateAppNameSegment (appName : Text) : Except String Unit :=
  if appName.isEmpty then .error "Invalid app name: must not be empty"
  else if 63 < byteLength appName then .error "Invalid app name: must be 63 characters or fewer"
  else if !appName.head?.any Char.isLower then
    .error "Invalid app name: must start with a lowercase letter"
  else if appName.getLast? = some '-' then .error "Invalid app name: must not end with '-'"
  else if !appName.all isNameChar then
    .error "Invalid app name: only lowercase letters, digits, and '-' are allowed"
  else .ok ()

def deploymentAppId (appName envName : Text) : Text := appName ++ '/' :: envName

def splitDeploymentAppId (appId : Text) : Option (Text × Text) :=
  (splitOnce '/' appId).filter fun (appName, envName) =>
    !(appName.isEmpty || envName.isEmpty || envName.contains '/')

def validateAppName (appName : Text) : Except String Unit :=
  match splitDeploymentAppId appName with
  | some (app, env) => do
    validateAppNameSegment app
    validateAppNameSegment env
  | none => validateAppNameSegment appName

def production : Text := "production".toList

def requestedDeploymentIdentity (appId : Text) : Text × Text :=
  (splitDeploymentAppId appId).getD (appId, production)

/-- The id with its environment, as `delete_app` and `AppConfig::deployment_id` have it. -/
def qualified (appId : Text) : Text :=
  deploymentAppId (requestedDeploymentIdentity appId).1 (requestedDeploymentIdentity appId).2

def appRoot (dataDir appName : Text) : Text := dataDir ++ "/apps/".toList ++ appName

def sanitizeKeySegment (value : Text) : Text :=
  let out := (trim value).filterMap fun ch =>
    if ch.isAlphanum || ch = '-' || ch = '_' then some ch.toLower
    else if ch = '.' then some '-' else none
  if out.isEmpty then "server".toList else out

def backupObjectPrefix (app environment server : Text) : Text :=
  "_tako/backups/".toList ++ (sanitizeKeySegment app ++ '/' :: (sanitizeKeySegment environment ++
    '/' :: sanitizeKeySegment server))

def backupIndexKey (app server : Text) : Text :=
  backupObjectPrefix (requestedDeploymentIdentity app).1
      (requestedDeploymentIdentity app).2 server ++
    "/index.json".toList

inductive Command where
  | deploy
  | operate
  | delete

/-- What a command uses of the server and of its storage. Tables of the state store
are keyed by `app`, or by name and environment. -/
structure Footprint where
  deployLock : Text
  apps : List Text
  appRows : List Text
  deploymentRow : Text × Text
  root : Text
  backups : Text
  index : Text

/-- A new app is registered, and a Compose deployment is stored, under the id of its
configuration; otherwise the id is used as it came, except by a deletion. -/
def footprint (dataDir server : Text) (command : Command) (app : Text) : Footprint :=
  let identity := requestedDeploymentIdentity app
  let id := match command with
    | .delete => qualified app
    | _ => app
  { deployLock := id
    apps := match command with
      | .deploy => [id, qualified app]
      | _ => [id]
    appRows := match command with
      | .deploy => [id, qualified app]
      | _ => [id]
    deploymentRow := identity
    root := appRoot dataDir id
    backups := backupObjectPrefix identity.1 identity.2 server
    index := backupIndexKey app server }

def Within (path dir : Text) : Prop := path = dir ∨ dir ++ ['/'] <+: path

structure Footprint.Disjoint (f g : Footprint) : Prop where
  deployLock : f.deployLock ≠ g.deployLock
  apps : f.apps.Disjoint g.apps
  appRows : f.appRows.Disjoint g.appRows
  deploymentRow : f.deploymentRow ≠ g.deploymentRow
  root : ¬Within f.root g.root ∧ ¬Within g.root f.root
  objects : ∀ key, f.backups ++ ['/'] <+: key → ¬g.backups ++ ['/'] <+: key

structure AppId where
  text : Text
  accepted : validateAppName text = .ok ()

/-- Two spellings of one deployment lead to the same things, and two deployments
share nothing, whatever the labels of their servers are. -/
def OneIdentity (a b : AppId) : Prop :=
  (requestedDeploymentIdentity a.text = requestedDeploymentIdentity b.text →
    ∀ dataDir server command,
      footprint dataDir server command a.text = footprint dataDir server command b.text) ∧
  (requestedDeploymentIdentity a.text ≠ requestedDeploymentIdentity b.text →
    ∀ dataDir server server' command command',
      (footprint dataDir server command a.text).Disjoint
        (footprint dataDir server' command' b.text))

section
variable {s t : Text}
def Segment (s : Text) : Prop := validateAppNameSegment s = .ok ()

theorem Segment.chars (h : Segment s) : s ≠ [] ∧ ∀ c ∈ s, isNameChar c = true := by
  unfold Segment validateAppNameSegment at h
  split_ifs at h with hempty hlong hhead hlast hall
  refine ⟨fun hs => hempty (isEmpty_iff.mpr hs), ?_⟩
  simpa using hall

theorem plain_of_isNameChar {c : Char} (h : isNameChar c = true) : Plain c := by
  apply plain_of_isHostChar
  simp only [isNameChar, isHostChar, isSegmentChar, Bool.or_eq_true] at h ⊢
  tauto

theorem Segment.slash_notMem (h : Segment s) : '/' ∉ s := by
  intro hmem
  have hplain := plain_of_isNameChar (h.chars.2 _ hmem)
  exact hplain.ne (d := '/') (.inr (.inl rfl)) rfl

theorem Segment.sanitizeKeySegment (h : Segment s) : sanitizeKeySegment s = s := by
  obtain ⟨hne, hchars⟩ := h.chars
  have htrim : trim s = s := trim_eq_self fun c hc =>
    (plain_of_isNameChar (hchars c hc)).isWhitespace
  have hkeep : (s.filterMap fun ch =>
      if ch.isAlphanum || ch = '-' || ch = '_' then some ch.toLower
      else if ch = '.' then some '-' else none) = s := by
    calc _ = s.filterMap some := by
          apply filterMap_congr
          intro c hc
          have hc' := hchars c hc
          have hkept : (c.isAlphanum || c = '-' || c = '_') = true := by
            simp only [isNameChar, Char.isAlphanum, Char.isAlpha, Bool.or_eq_true] at hc' ⊢
            tauto
          rw [if_pos hkept, (plain_of_isNameChar hc').toLower]
      _ = s := filterMap_some
  unfold Deployments.sanitizeKeySegment
  rw [htrim]
  simp only [hkeep]
  exact if_neg fun hempty => hne (isEmpty_iff.mp hempty)

theorem slash_inj {r r' : Text} (hs : '/' ∉ s) (ht : '/' ∉ t) (h : s ++ '/' :: r = t ++ '/' :: r') :
    s = t ∧ r = r' := by
  have hleft : splitOnce '/' (s ++ '/' :: r) = some (s, r) := splitOnce_eq_some_iff.mpr ⟨rfl, hs⟩
  have hright : splitOnce '/' (t ++ '/' :: r') = some (t, r') := splitOnce_eq_some_iff.mpr ⟨rfl, ht⟩
  rw [h, hright] at hleft
  simpa [eq_comm] using hleft
end

structure Spells (id n e : Text) : Prop where
  name : Segment n
  environment : Segment e
  text : id = n ∧ e = production ∨ id = deploymentAppId n e

section
variable {a b n e m f s t : Text}
theorem splitDeploymentAppId_deploymentAppId (hn : Segment n) (he : Segment e) :
    splitDeploymentAppId (deploymentAppId n e) = some (n, e) := by
  have hsplit : splitOnce '/' (deploymentAppId n e) = some (n, e) :=
    splitOnce_eq_some_iff.mpr ⟨rfl, hn.slash_notMem⟩
  rw [splitDeploymentAppId, hsplit]
  simp [Option.filter, hn.chars.1, he.chars.1, he.slash_notMem]

theorem AppId.spells (a : AppId) : ∃ n e, Spells a.text n e := by
  have h := a.accepted
  unfold validateAppName at h
  cases hsplit : splitDeploymentAppId a.text with
  | none =>
    rw [hsplit] at h
    exact ⟨a.text, production, h, rfl, .inl ⟨rfl, rfl⟩⟩
  | some parts =>
    obtain ⟨n, e⟩ := parts
    rw [hsplit] at h
    obtain ⟨_, hn, he⟩ := Fallible.bind_eq_ok h
    obtain ⟨honce, _⟩ := Option.filter_eq_some_iff.mp hsplit
    exact ⟨n, e, hn, he, .inr (splitOnce_eq_some_iff.mp honce).1⟩

theorem Spells.identity (h : Spells a n e) : requestedDeploymentIdentity a = (n, e) := by
  obtain ⟨rfl, rfl⟩ | rfl := h.text
  · have hnone : splitDeploymentAppId a = none := by
      rw [splitDeploymentAppId, splitOnce_eq_none h.name.slash_notMem]
      rfl
    rw [requestedDeploymentIdentity, hnone]
    rfl
  · rw [requestedDeploymentIdentity, splitDeploymentAppId_deploymentAppId h.name h.environment]
    rfl

theorem Spells.qualified (h : Spells a n e) : qualified a = deploymentAppId n e := by
  rw [Deployments.qualified, h.identity]

theorem Spells.used (h : Spells a n e) {k : Text} (hk : k = a ∨ k = Deployments.qualified a) :
    Spells k n e := by
  obtain rfl | rfl := hk
  · exact h
  · exact ⟨h.name, h.environment, .inr h.qualified⟩

theorem Spells.ne (h : Spells a n e) (h' : Spells b m f) (hne : (n, e) ≠ (m, f)) : a ≠ b := by
  rintro rfl
  exact hne (h.identity.symm.trans h'.identity)

theorem Spells.below (h : Spells s n e) (h' : Spells t m f) (hbelow : t ++ ['/'] <+: s) :
    s = deploymentAppId t e ∧ t = n := by
  obtain ⟨r, hr⟩ := hbelow
  rw [append_assoc, singleton_append] at hr
  have hslash : '/' ∈ s := hr ▸ mem_append_right _ mem_cons_self
  obtain ⟨rfl, _⟩ | hs := h.text
  · exact absurd hslash h.name.slash_notMem
  · rw [hs] at hr
    -- the other id has no slash, or there would be two
    obtain ⟨rfl, _⟩ | rfl := h'.text
    · obtain ⟨rfl, _⟩ := slash_inj h'.name.slash_notMem h.name.slash_notMem hr
      exact ⟨hs, rfl⟩
    · rw [deploymentAppId, append_assoc, cons_append] at hr
      obtain ⟨_, htail⟩ := slash_inj h'.name.slash_notMem h.name.slash_notMem hr
      have hmem : '/' ∈ e := htail ▸ mem_append_right _ mem_cons_self
      exact absurd hmem h.environment.slash_notMem

theorem within_appRoot {dataDir : Text} :
    Within (appRoot dataDir s) (appRoot dataDir t) ↔ s = t ∨ t ++ ['/'] <+: s := by
  unfold Within appRoot
  generalize dataDir ++ "/apps/".toList = apps
  rw [append_cancel_left_eq, append_assoc, prefix_append_right_inj]

theorem objects_apart {server server' key : Text} (h : Spells a n e) (h' : Spells b m f)
    (hkey : backupObjectPrefix n e server ++ ['/'] <+: key)
    (hkey' : backupObjectPrefix m f server' ++ ['/'] <+: key) : (n, e) = (m, f) := by
  obtain ⟨r, hr⟩ := hkey
  obtain ⟨_, hr'⟩ := hkey'
  have heq := hr.trans hr'.symm
  unfold backupObjectPrefix at heq
  generalize "_tako/backups/".toList = backups at heq
  simp only [h.name.sanitizeKeySegment, h.environment.sanitizeKeySegment,
    h'.name.sanitizeKeySegment, h'.environment.sanitizeKeySegment, append_assoc,
    cons_append, append_cancel_left_eq] at heq
  obtain ⟨hname, hrest⟩ := slash_inj h.name.slash_notMem h'.name.slash_notMem heq
  obtain ⟨henv, _⟩ := slash_inj h.environment.slash_notMem h'.environment.slash_notMem hrest
  rw [hname, henv]

variable {dataDir server server' : Text} {command command' : Command}
theorem footprint_deployLock : (footprint dataDir server command a).deployLock = a ∨
      (footprint dataDir server command a).deployLock = qualified a := by
  cases command <;> simp [footprint]

theorem footprint_names {k : Text} (hk : k ∈ (footprint dataDir server command a).apps ∨
    k ∈ (footprint dataDir server command a).appRows) : k = a ∨ k = qualified a := by
  cases command <;> simp only [footprint, mem_cons, not_mem_nil, or_false, or_self] at hk
  · exact hk
  · exact .inl hk
  · exact .inr hk

theorem not_below (ha : Spells a n e) (hb : Spells b m f) (hne : (n, e) ≠ (m, f))
    (hnested : ∀ e, a ≠ deploymentAppId b e) (hs : s = a ∨ s = qualified a)
    (ht : t = b ∨ t = qualified b) : ¬Within (appRoot dataDir s) (appRoot dataDir t) := by
  rw [within_appRoot]
  rintro (rfl | hbelow)
  · exact (ha.used hs).ne (hb.used ht) hne rfl
  · obtain ⟨heq, rfl⟩ := (ha.used hs).below (hb.used ht) hbelow
    -- `t` has no slash, so it is `b` itself
    have htb : t = b := by
      refine ht.resolve_right fun hq => ?_
      exact ha.name.slash_notMem (hq ▸ mem_append_right _ mem_cons_self)
    subst htb
    obtain rfl | rfl := hs
    · exact hnested e heq
    · obtain ⟨rfl, rfl⟩ | hqual := ha.text
      · exact ha.ne hb hne rfl
      · exact hnested e hqual

theorem footprint_disjoint (ha : Spells a n e) (hb : Spells b m f) (hne : (n, e) ≠ (m, f))
    (hab : ∀ e, b ≠ deploymentAppId a e) (hba : ∀ e, a ≠ deploymentAppId b e) :
    (footprint dataDir server command a).Disjoint (footprint dataDir server' command' b) := by
  have hlock : (footprint dataDir server command a).deployLock = a ∨ _ := footprint_deployLock
  have hlock' : (footprint dataDir server' command' b).deployLock = b ∨ _ := footprint_deployLock
  have hnames {k : Text} (hk : k = a ∨ k = qualified a) (hk' : k = b ∨ k = qualified b) : False :=
    (ha.used hk).ne (hb.used hk') hne rfl
  refine ⟨fun h => hnames hlock (h ▸ hlock'), ?_, ?_, ?_, ⟨?_, ?_⟩, ?_⟩
  · exact fun k hk hk' => hnames (footprint_names (.inl hk)) (footprint_names (.inl hk'))
  · exact fun k hk hk' => hnames (footprint_names (.inr hk)) (footprint_names (.inr hk'))
  · show requestedDeploymentIdentity a ≠ requestedDeploymentIdentity b
    rw [ha.identity, hb.identity]
    exact hne
  · exact not_below ha hb hne hba hlock hlock'
  · exact not_below hb ha hne.symm hab hlock' hlock
  · intro _ hkey hkey'
    simp only [footprint, ha.identity] at hkey
    simp only [footprint, hb.identity] at hkey'
    exact hne (objects_apart ha hb hkey hkey')
end

theorem Footprint.Disjoint.symm {f g : Footprint} (h : f.Disjoint g) : g.Disjoint f :=
  ⟨h.deployLock.symm, h.apps.symm, h.appRows.symm, h.deploymentRow.symm, h.root.symm,
    fun key hg hf => h.objects key hf hg⟩

theorem OneIdentity.symm {a b : AppId} (h : OneIdentity a b) : OneIdentity b a :=
  ⟨fun heq dataDir server command => (h.1 heq.symm dataDir server command).symm,
    fun hne dataDir server server' command command' =>
      (h.2 (Ne.symm hne) dataDir server' server command' command).symm⟩

theorem not_oneIdentity {a b : AppId} {e : Text} (h : b.text = deploymentAppId a.text e) :
    ¬OneIdentity a b := by
  intro hone
  by_cases hid : requestedDeploymentIdentity a.text = requestedDeploymentIdentity b.text
  · have hlock := congrArg Footprint.deployLock (hone.1 hid [] [] .operate)
    have hlength : a.text.length = b.text.length := congrArg List.length hlock
    rw [h, deploymentAppId, length_append, length_cons] at hlength
    omega
  · refine ((hone.2 hid [] [] [] .operate .operate).root).2 (within_appRoot.mpr (.inr ?_))
    refine ⟨e, ?_⟩
    rw [h, append_assoc]
    rfl

/-- Exactly the pairs in which one id is the name that the other one gives an
environment to are not kept together or apart: such an id is production for some
commands and the parent of all environments for others. -/
theorem one_identity_iff (a b : AppId) :
    OneIdentity a b ↔ ∀ e, b.text ≠ deploymentAppId a.text e ∧
      a.text ≠ deploymentAppId b.text e := by
  constructor
  · exact fun h e => ⟨fun hab => not_oneIdentity hab h, fun hba => not_oneIdentity hba h.symm⟩
  · intro hfree
    obtain ⟨n, e, ha⟩ := a.spells
    obtain ⟨m, f, hb⟩ := b.spells
    constructor
    · intro hid dataDir server command
      rw [ha.identity, hb.identity, Prod.mk.injEq] at hid
      obtain ⟨rfl, rfl⟩ := hid
      have hsame : a.text = b.text := by
        obtain ⟨hna, _⟩ | hqa := ha.text <;> obtain ⟨hnb, _⟩ | hqb := hb.text
        · exact hna.trans hnb.symm
        · exact absurd (hna ▸ hqb) (hfree e).1
        · exact absurd (hnb ▸ hqa) (hfree e).2
        · exact hqa.trans hqb.symm
      rw [hsame]
    · intro hid _ _ _ _ _
      rw [ha.identity, hb.identity] at hid
      exact footprint_disjoint ha hb hid (fun e => (hfree e).1) fun e => (hfree e).2

def web : AppId := ⟨"web".toList, by rfl⟩

def webProduction : AppId := ⟨"web/production".toList, by rfl⟩

def webStaging : AppId := ⟨"web/staging".toList, by rfl⟩

/-- The two spellings of production take different locks, and the directory of the
bare name is the parent of that of another environment. -/
theorem bare_name_shared : ¬OneIdentity web webProduction ∧ ¬OneIdentity web webStaging :=
  ⟨not_oneIdentity (e := production) rfl, not_oneIdentity (e := "staging".toList) rfl⟩

end Tako.Deployments
