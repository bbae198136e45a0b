import Mathlib.Data.List.Sort
import Mathlib.Data.Multiset.MapFold
import Sandbox.Auth.Calls
import Sandbox.Interleave.Amid
import Sandbox.Tables.Groups
import Sandbox.Tables.Unique

/-!
# The Portal

The portal lists the services that a user may enter, tenant by tenant. It does
not ask `checkTenantAccess`: the list is a query of its own, written once as a
join of four tables with a loop over its ordered rows, and once for the database
in memory as nested searches. The ordered checks, the join and the searches
decide the same, as every table has one row for its key.

The loop looks at the last entry only. The rows are ordered by slug and not by
id, but a tenant has one slug and a slug one tenant.

A link is made from the origin of the service's redirect URI. If the template
expands to no URL, an exception ends the request, and nothing is listed. The
database only checks that a template has the placeholder.

## Main definitions

* `pgListPortalEntries`, `memoryListPortalEntries`: The two lists.
* `portal`: The endpoint.
* `KeyConstraints`: What the database checks.
* `Assigned`: What the join selects.
* `Lists`: An entry of the response.

## Theorems

* `exec_checkTenantAccess`: The decision of the authorization endpoint.
* `portalList_pg`, `portalList_memory`: What the two lists have in common.
* `portal_agrees`: The portal lists what may be entered.
-/

namespace Sandbox.Auth.Portal

open Interleave Tables

section Source

/-- What the lists take from elsewhere: the origin of a URL, an exception being
    `none`, the names of tenants and clients by id, and the database's
    collation. -/
structure PortalDeps where
  parseOrigin : String → Option String
  tenantName : String → String
  clientName : String → String
  le : String → String → Bool
  total : ∀ a b, le a b = true ∨ le b a = true
  trans : ∀ a b c, le a b = true → le b c = true → le a c = true
  antisymm : ∀ a b, le a b = true → le b a = true → a = b

structure PortalService where
  clientId : String
  name : String
  origin : String
  deriving DecidableEq

abbrev PortalEntry := Tenant × List PortalService

variable (P : PortalDeps) (db : Identity) (userId : String)

/-- `new URL(expandRedirectUriTemplate(redirectUriTemplate, tenantSlug)).origin` -/
def serviceOrigin (redirectUriTemplate tenantSlug : String) : Option String :=
  P.parseOrigin (expandRedirectUriTemplate redirectUriTemplate tenantSlug)

def serviceOf (t : Tenant) (c : OidcClient) : Option PortalService :=
  (serviceOrigin P c.redirectUriTemplate t.slug).map fun origin =>
    ⟨c.clientId, P.clientName c.id, origin⟩

structure PortalRow where
  tenant : Tenant
  client : OidcClient

/-- The join of the memberships with tenants, contracts and clients. -/
def portalRows : List PortalRow :=
  (db.memberships.filter fun m => m.userId = userId ∧ m.status = .active).flatMap fun m =>
    (db.tenants.filter fun t => t.id = m.tenantId ∧ t.status = .active).flatMap fun t =>
      (db.contracts.filter fun s => s.tenantId = m.tenantId ∧ s.oidcClientId = m.oidcClientId ∧
        s.status = .active).flatMap fun _ =>
        (db.clients.filter fun c => c.id = m.oidcClientId ∧ c.status = .active).map fun c =>
          ⟨t, c⟩

/-- `ORDER BY t.slug, c.client_id` -/
def rowLe (a b : PortalRow) : Prop :=
  (if a.tenant.slug = b.tenant.slug then P.le a.client.clientId b.client.clientId
    else P.le a.tenant.slug b.tenant.slug) = true

instance : DecidableRel (rowLe P) := fun _ _ => inferInstanceAs (Decidable (_ = true))

/-- `PgIdentityRepository.listPortalEntries` -/
def pgListPortalEntries : Option (List PortalEntry) :=
  ((portalRows db userId).insertionSort (rowLe P)).foldlM (fun entries row =>
    (serviceOf P row.tenant row.client).map (push Tenant.id entries row.tenant)) []

/-- The service of a membership in a tenant, or none. -/
def memoryService (t : Tenant) (m : ServiceMembership) : Option (List PortalService) :=
  match db.contracts.find? fun c => c.tenantId = t.id ∧ c.oidcClientId = m.oidcClientId,
      db.clients.find? (·.id = m.oidcClientId) with
  | some contract, some client =>
      if contract.status ≠ .active ∨ client.status ≠ .active then some []
      else (serviceOf P t client).map ([·])
  | _, _ => some []

def memoryServices (t : Tenant) : Option (List PortalService) :=
  ((db.memberships.filter fun m =>
    m.userId = userId ∧ m.tenantId = t.id ∧ m.status = .active).mapM
      (memoryService P db t)).map List.flatten

/-- `MemoryIdentityRepository.listPortalEntries` -/
def memoryListPortalEntries : Option (List PortalEntry) :=
  db.tenants.foldlM (fun entries t =>
    if t.status ≠ .active then some entries
    else (memoryServices P db userId t).map fun services =>
      if 0 < services.length then entries ++ [(t, services)] else entries) []

structure PortalLink where
  name : String
  clientId : String
  loginUrl : String
  deriving DecidableEq

structure PortalTenant where
  slug : String
  name : String
  services : List PortalLink
  deriving DecidableEq

inductive PortalResponse
  | unauthenticated
  | serverError
  | ok (email : String) (tenants : List PortalTenant)
  deriving DecidableEq

def presentEntry (entry : PortalEntry) : PortalTenant :=
  ⟨entry.1.slug, P.tenantName entry.1.id,
    entry.2.map fun service => ⟨service.name, service.clientId, service.origin ++ "/auth/login"⟩⟩

/-- `GET /api/portal` with a session of the user, for one of the two lists. -/
def portal (list : Option (List PortalEntry)) : PortalResponse :=
  match db.users.find? (·.id = userId) with
  | none => .unauthenticated
  | some user =>
      if user.status ≠ .active then .unauthenticated
      else
        match list with
        | none => .serverError
        | some entries => .ok user.email (entries.map (presentEntry P))

end Source

/-- The keys of the tables that the lists read. -/
structure KeyConstraints (db : Identity) : Prop where
  users : Unique (fun u => some u.id) db.users
  tenants : Unique (fun t => some t.id) db.tenants
  slugs : Unique (fun t => some t.slug) db.tenants
  clients : Unique (fun c => some c.id) db.clients
  clientIds : Unique (fun c => some c.clientId) db.clients
  contracts : Unique (fun s => some (s.tenantId, s.oidcClientId)) db.contracts
  memberships : Unique (fun m => some (m.tenantId, m.oidcClientId, m.userId)) db.memberships

section Exceptions

variable {α β γ : Type} {f : α → Option β} {service : α → β} {rows : List α}

/-- A fold whose steps succeed is a fold without failure. -/
theorem foldlM_some {step : γ → α → Option γ} {next : γ → α → γ}
    (h : ∀ a ∈ rows, ∀ acc, step acc a = some (next acc a)) (init : γ) :
    rows.foldlM step init = some (rows.foldl next init) := by
  induction rows generalizing init with
  | nil => rfl
  | cons a rows ih =>
      rw [List.foldlM_cons, h a List.mem_cons_self, List.foldl_cons]
      exact ih (fun x hx => h x (List.mem_cons_of_mem _ hx)) _

/-- One row is enough for an exception. -/
theorem foldlM_none {step : γ → α → Option γ} {a : α} (ha : a ∈ rows)
    (h : ∀ acc, step acc a = none) (init : γ) : rows.foldlM step init = none := by
  induction rows generalizing init with
  | nil => cases ha
  | cons b rows ih =>
      rw [List.foldlM_cons]
      rcases List.mem_cons.mp ha with rfl | ha
      · rw [h init]
        rfl
      -- The fold has ended before `a`, or it comes to `a`.
      · cases step init b with
        | none => rfl
        | some acc => exact ih ha acc

/-- A map whose members succeed is a map without failure. -/
theorem mapM_some (h : ∀ a ∈ rows, f a = some (service a)) :
    rows.mapM f = some (rows.map service) := by
  induction rows with
  | nil => rfl
  | cons a rows ih =>
      rw [List.mapM_cons, h a List.mem_cons_self, ih fun x hx => h x (List.mem_cons_of_mem _ hx)]
      rfl

/-- A map fails as soon as one of its members does. -/
theorem mapM_none {a : α} (ha : a ∈ rows) (h : f a = none) : rows.mapM f = none := by
  induction rows with
  | nil => cases ha
  | cons b rows ih =>
      rw [List.mapM_cons]
      rcases List.mem_cons.mp ha with rfl | ha
      · rw [h]
        rfl
      · rw [ih ha]
        cases f b <;> rfl

/-- A loop that keeps some of the rows. -/
theorem foldl_concat_if {p : α → Prop} [DecidablePred p] (init : List β) :
    rows.foldl (fun acc a => if p a then acc ++ [service a] else acc) init =
      init ++ (rows.filter p).map service := by
  induction rows generalizing init with
  | nil => exact (List.append_nil init).symm
  | cons a rows ih =>
      rw [List.foldl_cons, ih]
      -- The fold appends exactly what the filter keeps.
      by_cases ha : p a
      · rw [if_pos ha, List.filter_cons, if_pos (decide_eq_true ha), List.map_cons,
          List.append_assoc, List.singleton_append]
      · rw [if_neg ha, List.filter_cons, if_neg fun h => ha (of_decide_eq_true h)]

end Exceptions

section Decision

variable {db : Identity} {userId : String}

/-- The client of a membership, if the contract and the client are active. -/
def grantedBy (db : Identity) (m : ServiceMembership) : Option OidcClient :=
  ((db.contracts.find? fun s => s.tenantId = m.tenantId ∧ s.oidcClientId = m.oidcClientId).filter
    (·.status = .active)).bind fun _ =>
      (db.clients.find? (·.id = m.oidcClientId)).filter (·.status = .active)

/-- The clients that a user has in a tenant. -/
def granted (db : Identity) (userId : String) (t : Tenant) : List OidcClient :=
  (db.memberships.filter fun m =>
    m.userId = userId ∧ m.tenantId = t.id ∧ m.status = .active).filterMap (grantedBy db)

/-- Under the key constraints, the contract that is found is the one of tenant and client. -/
theorem find_contract (hdb : KeyConstraints db) {tenantId oidcClientId : String} {s : Contract} :
    db.contracts.find? (fun c => c.tenantId = tenantId ∧ c.oidcClientId = oidcClientId) = some s ↔
      s ∈ db.contracts ∧ s.tenantId = tenantId ∧ s.oidcClientId = oidcClientId := by
  have hfind := find_iff hdb.contracts (k := (tenantId, oidcClientId)) (x := s)
  simp only [Prod.mk.injEq] at hfind
  exact hfind

/-- Under the key constraints, the membership that is found is the one of its three keys. -/
theorem find_membership (hdb : KeyConstraints db) {tenantId oidcClientId : String}
    {m : ServiceMembership} :
    db.memberships.find? (·.isFor tenantId oidcClientId userId) = some m ↔
      m ∈ db.memberships ∧ m.tenantId = tenantId ∧ m.oidcClientId = oidcClientId ∧
        m.userId = userId := by
  have hfind := find_iff hdb.memberships (k := (tenantId, oidcClientId, userId)) (x := m)
  simp only [Prod.mk.injEq] at hfind
  exact hfind

/-- A membership grants its client while the client and the contract are active. -/
theorem grantedBy_eq_some (hdb : KeyConstraints db) {m : ServiceMembership} {c : OidcClient} :
    grantedBy db m = some c ↔ c ∈ db.clients ∧ c.id = m.oidcClientId ∧ c.status = .active ∧
      ∃ s ∈ db.contracts, s.tenantId = m.tenantId ∧ s.oidcClientId = m.oidcClientId ∧
        s.status = .active := by
  unfold grantedBy
  simp only [Option.bind_eq_some_iff, Option.filter_eq_some_iff, decide_eq_true_eq,
    find_contract hdb, find_iff hdb.clients]
  constructor
  · rintro ⟨s, ⟨⟨hs, htenant, hclient⟩, hactive⟩, ⟨hc, hid⟩, hstatus⟩
    exact ⟨hc, hid, hstatus, s, hs, htenant, hclient, hactive⟩
  · rintro ⟨hc, hid, hstatus, s, hs, htenant, hclient, hactive⟩
    exact ⟨s, ⟨⟨hs, htenant, hclient⟩, hactive⟩, ⟨hc, hid⟩, hstatus⟩

/-- What the join selects: an active client in an active tenant that has
    contracted it, with an active membership of the user. -/
structure Assigned (db : Identity) (userId : String) (t : Tenant) (c : OidcClient) : Prop where
  tenant : t.status = .active
  client : c.status = .active
  contract : ∃ s ∈ db.contracts, s.tenantId = t.id ∧ s.oidcClientId = c.id ∧ s.status = .active
  membership : ∃ m ∈ db.memberships, m.tenantId = t.id ∧ m.oidcClientId = c.id ∧
    m.userId = userId ∧ m.status = .active

/-- The granted clients of an active tenant are the assigned ones. -/
theorem mem_granted (hdb : KeyConstraints db) {t : Tenant} (ht : t.status = .active)
    {c : OidcClient} : c ∈ granted db userId t ↔ c ∈ db.clients ∧ Assigned db userId t c := by
  unfold granted
  simp only [List.mem_filterMap, List.mem_filter, decide_eq_true_eq, grantedBy_eq_some hdb]
  constructor
  · rintro ⟨m, ⟨hm, huser, htenant, hactive⟩, hc, hid, hstatus, s, hs, hst, hsc, hsactive⟩
    exact ⟨hc, ht, hstatus, ⟨s, hs, hst.trans htenant, hsc.trans hid.symm, hsactive⟩,
      ⟨m, hm, htenant, hid.symm, huser, hactive⟩⟩
  · rintro ⟨hc, _, hstatus, ⟨s, hs, hst, hsc, hsactive⟩, ⟨m, hm, htenant, hclient, huser, hactive⟩⟩
    exact ⟨m, ⟨hm, huser, htenant, hactive⟩, hc, hclient.symm, hstatus, s, hs,
      hst.trans htenant.symm, hsc.trans hclient.symm, hsactive⟩

/-- A user has a client in a tenant once. -/
theorem nodup_granted (hdb : KeyConstraints db) (t : Tenant) :
    (granted db userId t).Pairwise fun c c' => c.id ≠ c'.id := by
  unfold granted
  rw [List.pairwise_filterMap]
  have hapart := (unique_iff.mp hdb.memberships).filter
    (fun m => m.userId = userId ∧ m.tenantId = t.id ∧ m.status = .active)
  refine hapart.imp_of_mem fun {m m'} hm hm' hne c hc c' hc' heq => ?_
  obtain ⟨huser, htenant, _⟩ := of_decide_eq_true (List.mem_filter.mp hm).2
  obtain ⟨huser', htenant', _⟩ := of_decide_eq_true (List.mem_filter.mp hm').2
  have hclient := ((grantedBy_eq_some hdb).mp hc).2.1
  have hclient' := ((grantedBy_eq_some hdb).mp hc').2.1
  refine hne _ rfl (congrArg some ?_)
  rw [htenant, htenant', huser, huser', ← hclient, ← hclient', heq]

/-- The decision on the rows of a database. -/
def access (db : Identity) (client : OidcClient) (tenant : Tenant) (userId : String) :
    Except AccessDeniedReason User :=
  decideTenantAccess tenant (db.users.find? (·.id = userId))
    (db.contracts.find? fun c => c.tenantId = tenant.id ∧ c.oidcClientId = client.id)
    (db.memberships.find? (·.isFor tenant.id client.id userId))

/-- The check succeeds for what is assigned, if the user is active. -/
theorem access_iff (hdb : KeyConstraints db) {t : Tenant} {c : OidcClient} :
    c.status = .active ∧ (∃ user, access db c t userId = .ok user) ↔
      (∃ user, db.users.find? (·.id = userId) = some user ∧ user.status = .active) ∧
        Assigned db userId t c := by
  unfold access
  simp only [decideTenantAccess_ok, find_contract hdb, find_membership hdb]
  constructor
  · rintro ⟨hclient, user, hfound, huser, htenant, ⟨s, ⟨hs, hst, hsc⟩, hsactive⟩,
      m, ⟨hm, hmt, hmc, hmu⟩, hmactive⟩
    exact ⟨⟨user, hfound, huser⟩, htenant, hclient, ⟨s, hs, hst, hsc, hsactive⟩,
      ⟨m, hm, hmt, hmc, hmu, hmactive⟩⟩
  · rintro ⟨⟨user, hfound, huser⟩, htenant, hclient, ⟨s, hs, hst, hsc, hsactive⟩,
      ⟨m, hm, hmt, hmc, hmu, hmactive⟩⟩
    exact ⟨hclient, user, hfound, huser, htenant, ⟨s, ⟨hs, hst, hsc⟩, hsactive⟩,
      m, ⟨hm, hmt, hmc, hmu⟩, hmactive⟩

theorem looks_query {α : Type} (f : Identity → α) :
    Looks (query f : AuthProg α) fun s => f s.identity :=
  Looks.read (.notified true) _

/-- The use case runs to that decision. -/
theorem exec_checkTenantAccess {s s' : State} {client : OidcClient} {tenant : Tenant}
    {es : List Event} {a : Except AccessDeniedReason User} :
    Exec s (checkTenantAccess client tenant userId) es a s' ↔
      es = [] ∧ a = access s.identity client tenant userId ∧ s' = s := by
  have huser := looks_query fun db => db.users.find? (·.id = userId)
  have hcontract := looks_query fun db =>
    db.contracts.find? fun c => c.tenantId = tenant.id ∧ c.oidcClientId = client.id
  have hmembership := looks_query fun db =>
    db.memberships.find? (·.isFor tenant.id client.id userId)
  have hrows := huser.both (hcontract.both hmembership)
  exact (hrows.map fun rows =>
    decideTenantAccess tenant rows.1 rows.2.1 rows.2.2).exec_iff

end Decision

section Rows

variable {P : PortalDeps} {db : Identity} {userId : String}

/-- The joined rows are the pairs of a tenant and a client assigned to the user. -/
theorem mem_portalRows {row : PortalRow} :
    row ∈ portalRows db userId ↔
      row.tenant ∈ db.tenants ∧ row.client ∈ db.clients ∧
        Assigned db userId row.tenant row.client := by
  unfold portalRows
  simp only [List.mem_flatMap, List.mem_map, List.mem_filter, decide_eq_true_eq]
  constructor
  · rintro ⟨m, ⟨hm, huser, hactive⟩, t, ⟨ht, htid, htactive⟩, s, ⟨hs, hst, hsc, hsactive⟩,
      c, ⟨hc, hcid, hcactive⟩, rfl⟩
    exact ⟨ht, hc, htactive, hcactive, ⟨s, hs, hst.trans htid.symm, hsc.trans hcid.symm, hsactive⟩,
      ⟨m, hm, htid.symm, hcid.symm, huser, hactive⟩⟩
  · rintro ⟨ht, hc, htactive, hcactive, ⟨s, hs, hst, hsc, hsactive⟩,
        m, hm, hmt, hmc, huser, hactive⟩
    exact ⟨m, ⟨hm, huser, hactive⟩, row.tenant, ⟨ht, hmt.symm, htactive⟩, s,
      ⟨hs, hst.trans hmt.symm, hsc.trans hmc.symm, hsactive⟩, row.client, ⟨hc, hmc.symm, hcactive⟩,
      rfl⟩

/-- The part of the join for one membership. -/
theorem portalRows_eq (hdb : KeyConstraints db) : portalRows db userId =
    (db.memberships.filter fun m => m.userId = userId ∧ m.status = .active).flatMap fun m =>
      ((db.tenants.find? (·.id = m.tenantId)).filter (·.status = .active)).toList.flatMap fun t =>
        (grantedBy db m).toList.map fun c => ⟨t, c⟩ := by
  unfold portalRows
  refine List.flatMap_congr fun m _ => ?_
  have htenants := filter_unique hdb.tenants m.tenantId (·.status = .active)
  have hcontracts := filter_unique hdb.contracts (m.tenantId, m.oidcClientId) (·.status = .active)
  have hclients := filter_unique hdb.clients m.oidcClientId (·.status = .active)
  simp only [decide_eq_true_eq, Prod.mk.injEq, and_assoc] at htenants hcontracts hclients
  rw [htenants, hcontracts, hclients]
  refine List.flatMap_congr fun t _ => ?_
  unfold grantedBy
  rw [Option.toList_bind, List.map_flatMap]
  rfl

/-- The rows of a tenant are what the user has there. -/
theorem filter_portalRows (hdb : KeyConstraints db) {t : Tenant} (ht : t ∈ db.tenants)
    (hactive : t.status = .active) :
    (portalRows db userId).filter (·.tenant.id = t.id) =
      (granted db userId t).map fun c => ⟨t, c⟩ := by
  -- Both filters ask for the same three fields, in another order.
  have hfilter : (db.memberships.filter fun m =>
      m.userId = userId ∧ m.tenantId = t.id ∧ m.status = .active) =
      (db.memberships.filter fun m => m.userId = userId ∧ m.status = .active).filter
        (·.tenantId = t.id) := by
    rw [List.filter_filter]
    refine List.filter_congr fun m _ => ?_
    rw [Bool.eq_iff_iff, Bool.and_eq_true]
    simp only [decide_eq_true_eq]
    exact ⟨fun h => ⟨h.2.1, h.1, h.2.2⟩, fun h => ⟨h.2.1, h.1, h.2.2⟩⟩
  unfold granted
  rw [portalRows_eq hdb, hfilter, List.filter_flatMap, List.filterMap_eq_flatMap_toList,
    List.map_flatMap]
  generalize db.memberships.filter _ = memberships
  induction memberships with
  | nil => rfl
  | cons m memberships ih =>
      rw [List.flatMap_cons, ih]
      -- By induction on the memberships: one of another tenant gives no row here.
      by_cases hm : m.tenantId = t.id
      · have hfind := (find_iff hdb.tenants).mpr ⟨ht, hm.symm⟩
        have hall : ∀ row ∈ (grantedBy db m).toList.map (PortalRow.mk t),
            decide (row.tenant.id = t.id) = true := by
          intro row hrow
          obtain ⟨c, _, rfl⟩ := List.mem_map.mp hrow
          exact decide_eq_true rfl
        rw [List.filter_cons, if_pos (decide_eq_true hm), List.flatMap_cons, hfind,
          Option.filter_some, if_pos (decide_eq_true hactive), Option.toList_some,
          List.flatMap_singleton, List.filter_eq_self.mpr hall]
      · rw [List.filter_cons, if_neg fun h => hm (of_decide_eq_true h)]
        refine List.append_left_eq_self.mpr ?_
        refine List.filter_eq_nil_iff.mpr fun row hrow heq => ?_
        obtain ⟨t', ht', hrow⟩ := List.mem_flatMap.mp hrow
        obtain ⟨c, _, rfl⟩ := List.mem_map.mp hrow
        rw [Option.mem_toList, Option.filter_eq_some_iff, find_iff hdb.tenants] at ht'
        exact hm (ht'.1.2.symm.trans (of_decide_eq_true heq))

/-- A tenant grants nothing exactly if none of its clients is assigned. -/
theorem granted_eq_nil (hdb : KeyConstraints db) {t : Tenant} (ht : t.status = .active) :
    granted db userId t = [] ↔ ∀ c ∈ db.clients, ¬Assigned db userId t c := by
  rw [List.eq_nil_iff_forall_not_mem]
  constructor
  · exact fun h c hc hassigned => h c ((mem_granted hdb ht).mpr ⟨hc, hassigned⟩)
  · intro h c hc
    obtain ⟨hclient, hassigned⟩ := (mem_granted hdb ht).mp hc
    exact h c hclient hassigned

end Rows

section Lists

variable {P : PortalDeps} {db : Identity} {userId : String}

/-- A service, if its template expands to a URL. -/
def service (P : PortalDeps) (t : Tenant) (c : OidcClient) : PortalService :=
  ⟨c.clientId, P.clientName c.id, (serviceOrigin P c.redirectUriTemplate t.slug).getD ""⟩

/-- The templates of what a user has expand to URLs. -/
def Expand (P : PortalDeps) (db : Identity) (userId : String) : Prop :=
  ∀ t ∈ db.tenants, ∀ c ∈ db.clients, Assigned db userId t c →
    (serviceOrigin P c.redirectUriTemplate t.slug).isSome

theorem serviceOf_eq {t : Tenant} {c : OidcClient}
    (h : (serviceOrigin P c.redirectUriTemplate t.slug).isSome) :
    serviceOf P t c = some (service P t c) := by
  obtain ⟨origin, horigin⟩ := Option.isSome_iff_exists.mp h
  unfold serviceOf service
  rw [horigin]
  rfl

/-- A client has no service exactly if its template expands to no URL. -/
theorem serviceOf_eq_none {t : Tenant} {c : OidcClient} :
    serviceOf P t c = none ↔ ¬(serviceOrigin P c.redirectUriTemplate t.slug).isSome := by
  unfold serviceOf
  rw [Option.map_eq_none_iff, Option.not_isSome_iff_eq_none]

/-- What both lists consist of. -/
structure PortalList (P : PortalDeps) (db : Identity) (userId : String)
    (entries : List PortalEntry) : Prop where
  nodup : (entries.map fun e => e.1.id).Nodup
  tenant : ∀ e ∈ entries, e.1 ∈ db.tenants ∧ e.1.status = .active
  nonempty : ∀ e ∈ entries, e.2 ≠ []
  services : ∀ e ∈ entries, e.2.Perm ((granted db userId e.1).map (service P e.1))
  complete : ∀ t ∈ db.tenants, t.status = .active → granted db userId t ≠ [] →
    ∃ e ∈ entries, e.1 = t

/-- Tenants in the order of their slugs. -/
def slugLe (P : PortalDeps) (db : Identity) (a b : Tenant) : Prop :=
  a ∈ db.tenants ∧ b ∈ db.tenants ∧ P.le a.slug b.slug = true

/-- The order of the slugs keeps the rows of a tenant together. -/
theorem slugLe_convex (hdb : KeyConstraints db) (a b c : Tenant) (hab : slugLe P db a b)
    (hbc : slugLe P db b c) (hid : a.id = c.id) : b.id = c.id := by
  obtain ⟨ha, hb, hle⟩ := hab
  obtain ⟨_, hc, hle'⟩ := hbc
  obtain rfl := unique_row hdb.tenants ha hc rfl (congrArg some hid.symm)
  have hslug := P.antisymm _ _ hle hle'
  rw [unique_row hdb.slugs ha hb rfl (congrArg some hslug.symm)]

theorem le_refl (P : PortalDeps) (a : String) : P.le a a = true :=
  (P.total a a).elim id id

instance : Std.Total (rowLe P) := by
  refine ⟨fun a b => ?_⟩
  unfold rowLe
  by_cases h : a.tenant.slug = b.tenant.slug
  · rw [if_pos h, if_pos h.symm]
    exact P.total _ _
  · rw [if_neg h, if_neg (Ne.symm h)]
    exact P.total _ _

instance : IsTrans PortalRow (rowLe P) := by
  refine ⟨fun a b c hab hbc => ?_⟩
  unfold rowLe at hab hbc ⊢
  by_cases h : a.tenant.slug = b.tenant.slug
  · rw [if_pos h] at hab
    by_cases h' : b.tenant.slug = c.tenant.slug
    · rw [if_pos h'] at hbc
      rw [if_pos (h.trans h')]
      exact P.trans _ _ _ hab hbc
    · rw [if_neg h'] at hbc
      rw [h, if_neg h']
      exact hbc
  · rw [if_neg h] at hab
    by_cases h' : b.tenant.slug = c.tenant.slug
    · rw [← h', if_neg h]
      exact hab
    · rw [if_neg h'] at hbc
      -- Slugs that go up twice do not come back.
      have hne : a.tenant.slug ≠ c.tenant.slug := by
        intro heq
        rw [← heq] at hbc
        exact h (P.antisymm _ _ hab hbc)
      rw [if_neg hne]
      exact P.trans _ _ _ hab hbc

theorem slugLe_of_rowLe {a b : PortalRow} (ha : a.tenant ∈ db.tenants) (hb : b.tenant ∈ db.tenants)
    (h : rowLe P a b) : slugLe P db a.tenant b.tenant := by
  unfold rowLe at h
  by_cases heq : a.tenant.slug = b.tenant.slug
  · exact ⟨ha, hb, heq ▸ le_refl P _⟩
  · rw [if_neg heq] at h
    exact ⟨ha, hb, h⟩

/-- What the loop over the ordered rows computes. -/
theorem pgListPortalEntries_eq (hurls : Expand P db userId) :
    pgListPortalEntries P db userId = some (group Tenant.id
      (((portalRows db userId).insertionSort (rowLe P)).map fun row =>
        (row.tenant, service P row.tenant row.client))) := by
  unfold pgListPortalEntries group
  rw [List.foldl_map]
  refine foldlM_some (fun row hrow entries => ?_) []
  obtain ⟨ht, hc, hassigned⟩ := mem_portalRows.mp ((List.mem_insertionSort _).mp hrow)
  rw [serviceOf_eq (hurls _ ht _ hc hassigned)]
  rfl

/-- The listing over the database is the list of the portal. -/
theorem portalList_pg (hdb : KeyConstraints db) (hurls : Expand P db userId) :
    ∃ entries, pgListPortalEntries P db userId = some entries ∧
      PortalList P db userId entries := by
  refine ⟨_, pgListPortalEntries_eq hurls, ?_⟩
  have hperm := List.perm_insertionSort (rowLe P) (portalRows db userId)
  have hmem : ∀ row ∈ (portalRows db userId).insertionSort (rowLe P),
      row ∈ portalRows db userId := fun row => hperm.mem_iff.mp
  -- The rows of a tenant stand together, since its slug is its own.
  have hsorted := (List.pairwise_insertionSort (rowLe P) (portalRows db userId)).imp_of_mem
    fun {a b} ha hb hle => slugLe_of_rowLe (mem_portalRows.mp (hmem a ha)).1
      (mem_portalRows.mp (hmem b hb)).1 hle
  generalize hrows : (portalRows db userId).insertionSort (rowLe P) = rows at hperm hmem hsorted
  have hgrouped : Grouped Tenant.id
      (rows.map fun row => (row.tenant, service P row.tenant row.client))
      (group Tenant.id (rows.map fun row => (row.tenant, service P row.tenant row.client))) :=
    grouped_group (List.pairwise_map.mpr hsorted) (slugLe_convex hdb)
  generalize group Tenant.id _ = entries at hgrouped
  have htenant : ∀ e ∈ entries, e.1 ∈ db.tenants ∧ e.1.status = .active ∧
      granted db userId e.1 ≠ [] := by
    intro e he
    obtain ⟨r, hr, heq⟩ := hgrouped.head e he
    obtain ⟨row, hrow, rfl⟩ := List.mem_map.mp hr
    obtain ⟨ht, hc, hassigned⟩ := mem_portalRows.mp (hmem row hrow)
    rw [← heq]
    refine ⟨ht, hassigned.tenant, fun hnil => ?_⟩
    exact (granted_eq_nil hdb hassigned.tenant).mp hnil _ hc hassigned
  -- They are what is granted to the user there, in some order.
  have hservices : ∀ e ∈ entries, e.2.Perm ((granted db userId e.1).map (service P e.1)) := by
    intro e he
    obtain ⟨ht, hactive, _⟩ := htenant e he
    have hrowsof := (hperm.filter (·.tenant.id = e.1.id)).map
      fun row => service P row.tenant row.client
    rw [filter_portalRows hdb ht hactive, List.map_map] at hrowsof
    rw [hgrouped.values e he, List.filter_map, List.map_map]
    exact hrowsof
  refine ⟨hgrouped.nodup, fun e he => ⟨(htenant e he).1, (htenant e he).2.1⟩, ?_, hservices, ?_⟩
  · intro e he hnil
    have hempty := (hservices e he)
    rw [hnil] at hempty
    exact (htenant e he).2.2 (List.map_eq_nil_iff.mp hempty.nil_eq.symm)
  · intro t ht hactive hgranted
    obtain ⟨c, hc⟩ := List.exists_mem_of_ne_nil _ hgranted
    have hrow : (⟨t, c⟩ : PortalRow) ∈ rows :=
      hperm.mem_iff.mpr (mem_portalRows.mpr ⟨ht, (mem_granted hdb hactive).mp hc⟩)
    obtain ⟨e, he, hid⟩ := hgrouped.row _ (List.mem_map_of_mem hrow)
    exact ⟨e, he, unique_row hdb.tenants (htenant e he).1 ht rfl (congrArg some hid.symm)⟩

/-- The searches for a membership find what the join finds. -/
theorem memoryService_eq {t : Tenant} {m : ServiceMembership} (htenant : m.tenantId = t.id) :
    memoryService P db t m = match grantedBy db m with
      | none => some []
      | some c => (serviceOf P t c).map ([·]) := by
  unfold memoryService grantedBy
  rw [htenant]
  cases db.contracts.find? fun c => c.tenantId = t.id ∧ c.oidcClientId = m.oidcClientId with
  | none => rfl
  | some contract =>
      -- The code tests contract and client together, `grantedBy` one by one.
      cases db.clients.find? (·.id = m.oidcClientId) with
      | none =>
          by_cases hcontract : contract.status = .active
          · rw [Option.filter_some, if_pos (decide_eq_true hcontract)]
            rfl
          · rw [Option.filter_some, if_neg fun h => hcontract (of_decide_eq_true h)]
            rfl
      | some client =>
          dsimp only
          by_cases hcontract : contract.status = .active
          · rw [Option.filter_some, if_pos (decide_eq_true hcontract), Option.bind_some]
            by_cases hclient : client.status = .active
            · rw [Option.filter_some, if_pos (decide_eq_true hclient),
                if_neg (not_or.mpr ⟨not_not.mpr hcontract, not_not.mpr hclient⟩)]
            · rw [Option.filter_some, if_neg fun h => hclient (of_decide_eq_true h),
                if_pos (.inr hclient)]
          · rw [Option.filter_some, if_neg fun h => hcontract (of_decide_eq_true h),
              if_pos (.inl hcontract)]
            rfl

/-- The listing in memory presents the granted clients of a tenant. -/
theorem memoryServices_eq (hdb : KeyConstraints db) (hurls : Expand P db userId) {t : Tenant}
    (ht : t ∈ db.tenants) (hactive : t.status = .active) :
    memoryServices P db userId t = some ((granted db userId t).map (service P t)) := by
  -- Each membership yields its service, if it has one.
  have hservice : ∀ m ∈ db.memberships.filter fun m =>
      m.userId = userId ∧ m.tenantId = t.id ∧ m.status = .active,
      memoryService P db t m = some ((grantedBy db m).toList.map (service P t)) := by
    intro m hm
    rw [memoryService_eq (of_decide_eq_true (List.mem_filter.mp hm).2).2.1]
    cases hc : grantedBy db m with
    | none => rfl
    | some c =>
        obtain ⟨hclient, hassigned⟩ := (mem_granted hdb hactive).mp
          (List.mem_filterMap.mpr ⟨m, hm, hc⟩)
        dsimp only
        rw [serviceOf_eq (hurls t ht c hclient hassigned)]
        rfl
  unfold memoryServices granted
  rw [mapM_some hservice, List.filterMap_eq_flatMap_toList, List.map_flatMap]
  rfl

/-- The listing in memory is the list of the portal. -/
theorem portalList_memory (hdb : KeyConstraints db) (hurls : Expand P db userId) :
    ∃ entries, memoryListPortalEntries P db userId = some entries ∧
      PortalList P db userId entries := by
  -- The loop keeps the active tenants that grant something, in their order.
  have hlist : memoryListPortalEntries P db userId =
      some ((db.tenants.filter fun t => t.status = .active ∧ granted db userId t ≠ []).map fun t =>
        (t, (granted db userId t).map (service P t))) := by
    unfold memoryListPortalEntries
    rw [← List.nil_append (List.map _ _), ← foldl_concat_if]
    refine foldlM_some (fun t ht entries => ?_) []
    by_cases hactive : t.status = .active
    · rw [if_neg (not_not.mpr hactive), memoryServices_eq hdb hurls ht hactive, Option.map_some]
      by_cases hgranted : granted db userId t = []
      · have hlength : ¬0 < ((granted db userId t).map (service P t)).length := by
          rw [hgranted]
          exact Nat.lt_irrefl 0
        rw [if_neg hlength, if_neg fun h => h.2 hgranted]
      · have hlength : 0 < ((granted db userId t).map (service P t)).length := by
          rw [List.length_map]
          exact List.length_pos_iff.mpr hgranted
        rw [if_pos hlength, if_pos ⟨hactive, hgranted⟩]
    · rw [if_pos hactive, if_neg fun h => hactive h.1]
  -- What is left is what a list of the portal has to satisfy.
  refine ⟨_, hlist, ?_, ?_, ?_, ?_, ?_⟩
  · have htenants := unique_filter
      (fun t => t.status = .active ∧ granted db userId t ≠ []) hdb.tenants
    unfold Tables.Unique at htenants
    rw [List.filterMap_eq_map'] at htenants
    rw [List.map_map]
    exact htenants
  · intro e he
    obtain ⟨t, ht, rfl⟩ := List.mem_map.mp he
    obtain ⟨hmem, hkept⟩ := List.mem_filter.mp ht
    exact ⟨hmem, (of_decide_eq_true hkept).1⟩
  · intro e he
    obtain ⟨t, ht, rfl⟩ := List.mem_map.mp he
    exact fun hnil => (of_decide_eq_true (List.mem_filter.mp ht).2).2 (List.map_eq_nil_iff.mp hnil)
  · intro e he
    obtain ⟨t, ht, rfl⟩ := List.mem_map.mp he
    exact List.Perm.refl _
  · intro t ht hactive hgranted
    exact ⟨_, List.mem_map_of_mem (List.mem_filter.mpr ⟨ht, decide_eq_true ⟨hactive, hgranted⟩⟩),
      rfl⟩

/-- One template that expands to no URL is enough for both lists to fail. -/
theorem lists_none (hdb : KeyConstraints db) (hurls : ¬Expand P db userId) :
    pgListPortalEntries P db userId = none ∧ memoryListPortalEntries P db userId = none := by
  unfold Expand at hurls
  simp only [not_forall] at hurls
  obtain ⟨t, ht, c, hc, hassigned, hnone⟩ := hurls
  have hservice : serviceOf P t c = none := serviceOf_eq_none.mpr hnone
  -- Both listings come to the pair whose URL cannot be made.
  constructor
  · have hrow : (⟨t, c⟩ : PortalRow) ∈ (portalRows db userId).insertionSort (rowLe P) :=
      (List.mem_insertionSort _).mpr (mem_portalRows.mpr ⟨ht, hc, hassigned⟩)
    refine foldlM_none hrow (fun entries => ?_) []
    rw [hservice]
    rfl
  · obtain ⟨m, hm, hgranted⟩ := List.mem_filterMap.mp
      ((mem_granted hdb hassigned.tenant).mpr ⟨hc, hassigned⟩)
    have hmemory : memoryService P db t m = none := by
      rw [memoryService_eq (of_decide_eq_true (List.mem_filter.mp hm).2).2.1, hgranted]
      dsimp only
      rw [hservice]
      rfl
    refine foldlM_none ht (fun entries => ?_) []
    rw [if_neg (not_not.mpr hassigned.tenant), memoryServices, mapM_none hm hmemory]
    rfl

/-- An entry without the order of its services. -/
def unordered (entry : PortalEntry) : Tenant × Multiset PortalService :=
  (entry.1, entry.2)

/-- The same entries in any order. -/
def SameEntries (entries entries' : List PortalEntry) : Prop :=
  (entries.map unordered).Perm (entries'.map unordered)

theorem PortalList.nodup_unordered {entries : List PortalEntry}
    (h : PortalList P db userId entries) : (entries.map unordered).Nodup := by
  refine List.Nodup.of_map (fun e => e.1.id) ?_
  rw [List.map_map]
  exact h.nodup

/-- Two lists of the portal have the same tenants with the same services. -/
theorem PortalList.subset {entries entries' : List PortalEntry}
    (h : PortalList P db userId entries) (h' : PortalList P db userId entries')
    {x : Tenant × Multiset PortalService} (hx : x ∈ entries.map unordered) :
    x ∈ entries'.map unordered := by
  obtain ⟨e, he, rfl⟩ := List.mem_map.mp hx
  obtain ⟨ht, hactive⟩ := h.tenant e he
  have hgranted : granted db userId e.1 ≠ [] := by
    intro hnil
    have hservices := h.services e he
    rw [hnil] at hservices
    exact h.nonempty e he hservices.eq_nil
  obtain ⟨e', he', heq⟩ := h'.complete e.1 ht hactive hgranted
  refine List.mem_map.mpr ⟨e', he', Prod.ext heq (Multiset.coe_eq_coe.mpr ?_)⟩
  have hservices := h'.services e' he'
  rw [heq] at hservices
  exact hservices.trans (h.services e he).symm

/-- A list of what the user has is determined up to order. -/
theorem PortalList.same {entries entries' : List PortalEntry}
    (h : PortalList P db userId entries) (h' : PortalList P db userId entries') :
    SameEntries entries entries' :=
  (List.perm_ext_iff_of_nodup h.nodup_unordered h'.nodup_unordered).mpr fun _ =>
    ⟨h.subset h', h'.subset h⟩

end Lists

section Response

variable {P : PortalDeps} {db : Identity} {userId : String}

/-- The response has a service under a tenant. -/
def Lists (response : PortalResponse) (t : Tenant) (c : OidcClient) : Prop :=
  ∃ email tenants, response = .ok email tenants ∧
    ∃ entry ∈ tenants, entry.slug = t.slug ∧ ∃ link ∈ entry.services, link.clientId = c.clientId

/-- The response has every tenant once, and every service once in a tenant. -/
def Once (response : PortalResponse) : Prop :=
  ∀ email tenants, response = .ok email tenants →
    (tenants.map (·.slug)).Nodup ∧ ∀ entry ∈ tenants, (entry.services.map (·.clientId)).Nodup

/-- The portal answers an active user with the entries of the listing. -/
theorem portal_eq_ok {list : Option (List PortalEntry)} {email : String}
    {tenants : List PortalTenant} :
    portal P db userId list = .ok email tenants ↔
      ∃ user, db.users.find? (·.id = userId) = some user ∧ user.status = .active ∧
        user.email = email ∧ ∃ entries, list = some entries ∧
          entries.map (presentEntry P) = tenants := by
  unfold portal
  constructor
  · intro h
    split at h
    · cases h
    · next user huser =>
        -- A user who is not active is turned away.
        split_ifs at h with hactive
        split at h
        · cases h
        · next entries =>
            obtain ⟨hemail, htenants⟩ := PortalResponse.ok.inj h
            exact ⟨user, huser, not_not.mp hactive, hemail, entries, rfl, htenants⟩
  · rintro ⟨user, huser, hactive, rfl, entries, rfl, rfl⟩
    rw [huser]
    dsimp only
    rw [if_neg (not_not.mpr hactive)]

/-- Each pair of a tenant and a service is presented once. -/
theorem PortalList.once {entries : List PortalEntry} (hdb : KeyConstraints db)
    (h : PortalList P db userId entries) : Once (portal P db userId (some entries)) := by
  intro email tenants hok
  obtain ⟨_, _, _, _, _, hlist, rfl⟩ := portal_eq_ok.mp hok
  obtain rfl := Option.some.inj hlist
  constructor
  -- The entries differ in the tenant, so their slugs differ.
  · have hids := h.nodup
    rw [List.Nodup, List.pairwise_map] at hids
    rw [List.map_map, List.Nodup, List.pairwise_map]
    refine hids.imp_of_mem fun {e e'} he he' hne hslug => hne ?_
    rw [unique_row hdb.slugs (h.tenant e he).1 (h.tenant e' he').1 rfl
      (congrArg some hslug.symm)]
  · intro entry hentry
    obtain ⟨e, he, rfl⟩ := List.mem_map.mp hentry
    -- Within an entry the services differ in the client.
    have hclients : ((presentEntry P e).services.map (·.clientId)).Perm
        ((granted db userId e.1).map (·.clientId)) := by
      have hperm := (h.services e he).map (·.clientId)
      rw [List.map_map] at hperm
      unfold presentEntry
      rw [List.map_map]
      exact hperm
    rw [hclients.nodup_iff, List.Nodup, List.pairwise_map]
    refine (nodup_granted hdb e.1).imp_of_mem fun {c c'} hc hc' hne heq => hne ?_
    have hmem : ∀ c ∈ granted db userId e.1, c ∈ db.clients :=
      fun c hc => ((mem_granted hdb (h.tenant e he).2).mp hc).1
    rw [unique_row hdb.clientIds (hmem c hc) (hmem c' hc') rfl (congrArg some heq.symm)]

/-- The portal lists exactly the assigned services of an active user. -/
theorem PortalList.lists_iff {entries : List PortalEntry} (hdb : KeyConstraints db)
    (h : PortalList P db userId entries) {t : Tenant} (ht : t ∈ db.tenants) {c : OidcClient}
    (hc : c ∈ db.clients) :
    Lists (portal P db userId (some entries)) t c ↔
      (∃ user, db.users.find? (·.id = userId) = some user ∧ user.status = .active) ∧
        Assigned db userId t c := by
  constructor
  · rintro ⟨email, tenants, hok, entry, hentry, hslug, link, hlink, hclient⟩
    obtain ⟨user, huser, hactive, _, _, hlist, rfl⟩ := portal_eq_ok.mp hok
    obtain rfl := Option.some.inj hlist
    -- The slug and the client id of the link lead back to their rows.
    obtain ⟨e, he, rfl⟩ := List.mem_map.mp hentry
    obtain ⟨s, hs, rfl⟩ := List.mem_map.mp hlink
    obtain ⟨c', hc', rfl⟩ := List.mem_map.mp ((h.services e he).mem_iff.mp hs)
    obtain ⟨hmem, hassigned⟩ := (mem_granted hdb (h.tenant e he).2).mp hc'
    obtain rfl := unique_row hdb.slugs (h.tenant e he).1 ht rfl (congrArg some hslug.symm)
    obtain rfl := unique_row hdb.clientIds hmem hc rfl (congrArg some hclient.symm)
    exact ⟨⟨user, huser, hactive⟩, hassigned⟩
  · rintro ⟨⟨user, huser, hactive⟩, hassigned⟩
    have hgranted := (mem_granted hdb hassigned.tenant).mpr ⟨hc, hassigned⟩
    obtain ⟨e, he, rfl⟩ := h.complete t ht hassigned.tenant (List.ne_nil_of_mem hgranted)
    refine ⟨user.email, entries.map (presentEntry P),
      portal_eq_ok.mpr ⟨user, huser, hactive, rfl, entries, rfl, rfl⟩,
      presentEntry P e, List.mem_map_of_mem he, rfl, ?_⟩
    exact ⟨_, List.mem_map_of_mem ((h.services e he).mem_iff.mpr (List.mem_map_of_mem hgranted)),
      rfl⟩

end Response

/-- The check of the authorization endpoint lets a user enter. -/
def Enters (s : State) (client : OidcClient) (tenant : Tenant) (userId : String) : Prop :=
  ∃ es user s', Exec s (checkTenantAccess client tenant userId) es (.ok user) s'

/-- A user enters a service where the access check answers a user. -/
theorem enters_iff {s : State} {client : OidcClient} {tenant : Tenant} {userId : String} :
    Enters s client tenant userId ↔
      ∃ user, access s.identity client tenant userId = .ok user := by
  unfold Enters
  constructor
  · rintro ⟨es, user, s', h⟩
    exact ⟨user, (exec_checkTenantAccess.mp h).2.1.symm⟩
  · rintro ⟨user, huser⟩
    exact ⟨[], user, s, exec_checkTenantAccess.mpr ⟨rfl, huser.symm, rfl⟩⟩

/-- Either list, and the portal with it, has what the user may enter, provided
    that all templates of what the user has expand to URLs. -/
theorem portal_agrees {P : PortalDeps} {s : State} {userId : String}
    (hdb : KeyConstraints s.identity) :
    (Expand P s.identity userId → ∃ pg memory, pgListPortalEntries P s.identity userId = some pg ∧
      memoryListPortalEntries P s.identity userId = some memory ∧ SameEntries pg memory) ∧
    (¬Expand P s.identity userId → pgListPortalEntries P s.identity userId = none ∧
      memoryListPortalEntries P s.identity userId = none) ∧
    ∀ list ∈ [pgListPortalEntries P s.identity userId, memoryListPortalEntries P s.identity userId],
      Once (portal P s.identity userId list) ∧
      ∀ t ∈ s.identity.tenants, ∀ c ∈ s.identity.clients,
        Lists (portal P s.identity userId list) t c ↔ Expand P s.identity userId ∧
          (∃ user, s.identity.users.find? (·.id = userId) = some user ∧ user.status = .active) ∧
          c.status = .active ∧ Enters s c t userId := by
  refine ⟨fun hurls => ?_, lists_none hdb, fun list hlist => ?_⟩
  · obtain ⟨pg, hpg, hpgList⟩ := portalList_pg hdb hurls
    obtain ⟨memory, hmemory, hmemoryList⟩ := portalList_memory hdb hurls
    exact ⟨pg, memory, hpg, hmemory, hpgList.same hmemoryList⟩
  · by_cases hurls : Expand P s.identity userId
    -- Either listing is a list of the portal, so both answer alike.
    · have hentries : ∃ entries, list = some entries ∧ PortalList P s.identity userId entries := by
        rcases List.mem_cons.mp hlist with rfl | hlist
        · exact portalList_pg hdb hurls
        · rw [List.mem_singleton.mp hlist]
          exact portalList_memory hdb hurls
      obtain ⟨entries, rfl, hentries⟩ := hentries
      refine ⟨hentries.once hdb, fun t ht c hc => ?_⟩
      rw [hentries.lists_iff hdb ht hc, enters_iff, access_iff hdb]
      exact ⟨fun h => ⟨hurls, h.1, h⟩, fun h => h.2.2⟩
    -- Where a template expands to no URL, both listings throw.
    · have hnone : list = none := by
        rcases List.mem_cons.mp hlist with rfl | hlist
        · exact (lists_none hdb hurls).1
        · rw [List.mem_singleton.mp hlist]
          exact (lists_none hdb hurls).2
      have hanswer : ∀ email tenants, portal P s.identity userId list ≠ .ok email tenants := by
        intro email tenants hok
        obtain ⟨_, _, _, _, _, hsome, _⟩ := portal_eq_ok.mp hok
        rw [hnone] at hsome
        cases hsome
      refine ⟨fun email tenants hok => absurd hok (hanswer email tenants), fun t _ c _ => ?_⟩
      constructor
      · rintro ⟨email, tenants, hok, _⟩
        exact absurd hok (hanswer email tenants)
      · exact fun h => absurd h.1 hurls

def acme : Tenant := ⟨"tenant-1", "acme", .active⟩

def crm (redirectUriTemplate : String) : OidcClient where
  id := "client-1"
  clientId := "crm"
  audience := "crm-api"
  redirectUriTemplate := redirectUriTemplate
  secretHashes := []
  allowedScopes := []
  status := .active
  backchannelLogoutUri := none

/-- A user of one service in one tenant. -/
def oneService (redirectUriTemplate : String) : Identity where
  users := [⟨"user-1", none, "alice@example.com", none, .active⟩]
  tenants := [acme]
  clients := [crm redirectUriTemplate]
  contracts := [⟨"tenant-1", "client-1", .active⟩]
  memberships := [⟨"tenant-1", "client-1", "user-1", .active⟩]
  mfaMethods := []

theorem keyConstraints_oneService (redirectUriTemplate : String) :
    KeyConstraints (oneService redirectUriTemplate) := by
  constructor <;> exact List.nodup_singleton _

def oneOrigin : PortalDeps where
  parseOrigin url :=
    if url = "https://acme.crm.example/callback" then some "https://acme.crm.example" else none
  tenantName _ := "Acme"
  clientName _ := "CRM"
  le a b := a ≤ b
  total a b := by
    rw [decide_eq_true_eq, decide_eq_true_eq]
    exact String.le_total a b
  trans a b c hab hbc := by
    rw [decide_eq_true_eq] at hab hbc ⊢
    exact String.le_trans hab hbc
  antisymm a b hab hba := by
    rw [decide_eq_true_eq] at hab hba
    exact String.le_antisymm hab hba

theorem enters_oneService (redirectUriTemplate : String) :
    Enters (State.start 0 (oneService redirectUriTemplate)) (crm redirectUriTemplate) acme
      "user-1" :=
  enters_iff.mpr ⟨⟨"user-1", none, "alice@example.com", none, .active⟩, by
    simp [access, decideTenantAccess, State.start, oneService, crm, acme,
      ServiceMembership.isFor]⟩

def globex : Tenant := ⟨"tenant-2", "globex", .active⟩

def erp : OidcClient where
  id := "client-2"
  clientId := "erp"
  audience := "erp-api"
  redirectUriTemplate := "https://{tenant}.erp.example/callback"
  secretHashes := []
  allowedScopes := []
  status := .active
  backchannelLogoutUri := none

/-- Two tenants with two services. One contract is suspended, and so is one
    membership of the first user. -/
def twoServices : Identity where
  users := [⟨"user-1", none, "alice@example.com", none, .active⟩,
    ⟨"user-2", none, "bob@example.com", none, .active⟩]
  tenants := [acme, globex]
  clients := [crm "https://{tenant}.crm.example/callback", erp]
  contracts := [⟨"tenant-1", "client-1", .active⟩, ⟨"tenant-1", "client-2", .suspended⟩,
    ⟨"tenant-2", "client-1", .active⟩, ⟨"tenant-2", "client-2", .active⟩]
  memberships := [⟨"tenant-1", "client-1", "user-1", .active⟩,
    ⟨"tenant-1", "client-2", "user-1", .active⟩, ⟨"tenant-2", "client-1", "user-1", .disabled⟩,
    ⟨"tenant-2", "client-2", "user-1", .active⟩, ⟨"tenant-2", "client-1", "user-2", .active⟩]
  mfaMethods := []

def twoOrigins : PortalDeps :=
  { oneOrigin with
    parseOrigin := fun url =>
      if url = "https://acme.crm.example/callback" then some "https://acme.crm.example"
      else if url = "https://globex.erp.example/callback" then some "https://globex.erp.example"
      else none }

/-- The user may enter the first service in the first tenant and the second one
    in the second. -/
theorem access_twoServices {t : Tenant} (ht : t ∈ twoServices.tenants) {c : OidcClient}
    (hc : c ∈ twoServices.clients) :
    (∃ user, access twoServices c t "user-1" = .ok user) ↔
      t.slug = "acme" ∧ c.clientId = "crm" ∨ t.slug = "globex" ∧ c.clientId = "erp" := by
  rcases List.mem_pair.mp ht with rfl | rfl <;> rcases List.mem_pair.mp hc with rfl | rfl
  · exact ⟨fun _ => .inl ⟨rfl, rfl⟩, fun _ => ⟨_, rfl⟩⟩
  · exact ⟨fun ⟨_, h⟩ => (nomatch h), fun h => absurd h (by decide)⟩
  · exact ⟨fun ⟨_, h⟩ => (nomatch h), fun h => absurd h (by decide)⟩
  · exact ⟨fun _ => .inr ⟨rfl, rfl⟩, fun _ => ⟨_, rfl⟩⟩

/-- The response has the first service in the first tenant and the second one in
    the second, and nothing else. -/
def ListsTwo (list : Option (List PortalEntry)) : Prop :=
  ∀ t ∈ twoServices.tenants, ∀ c ∈ twoServices.clients,
    Lists (portal twoOrigins twoServices "user-1" list) t c ↔
      t.slug = "acme" ∧ c.clientId = "crm" ∨ t.slug = "globex" ∧ c.clientId = "erp"

theorem portal_agrees_twoServices :
    ListsTwo (pgListPortalEntries twoOrigins twoServices "user-1") ∧
      ListsTwo (memoryListPortalEntries twoOrigins twoServices "user-1") := by
  have hdb : KeyConstraints twoServices := by
    constructor <;> decide
  have huser : ∃ user, twoServices.users.find? (·.id = "user-1") = some user ∧
      user.status = .active := ⟨_, rfl, rfl⟩
  -- Both assigned pairs expand to a URL.
  have hurls : Expand twoOrigins twoServices "user-1" := by
    intro t ht c hc hassigned
    have haccess := (access_twoServices ht hc).mp ((access_iff hdb).mpr ⟨huser, hassigned⟩).2
    rcases List.mem_pair.mp ht with rfl | rfl <;> rcases List.mem_pair.mp hc with rfl | rfl
    · decide
    · exact absurd haccess (by decide)
    · exact absurd haccess (by decide)
    · decide
  have hagrees := (@portal_agrees twoOrigins (State.start 0 twoServices) "user-1" hdb).2.2
  have hlists : ∀ list ∈ [pgListPortalEntries twoOrigins twoServices "user-1",
      memoryListPortalEntries twoOrigins twoServices "user-1"], ListsTwo list := by
    intro list hlist t ht c hc
    refine ((hagrees list hlist).2 t ht c hc).trans ?_
    rw [enters_iff]
    have hactive : c.status = .active := by
      rcases List.mem_pair.mp hc with rfl | rfl <;> rfl
    exact ⟨fun h => (access_twoServices ht hc).mp h.2.2.2,
      fun h => ⟨hurls, huser, hactive, (access_twoServices ht hc).mpr h⟩⟩
  exact ⟨hlists _ List.mem_cons_self, hlists _ (List.mem_cons_of_mem _ List.mem_cons_self)⟩

/-- A template that is not a URL keeps a service that may be entered, and all
    others, from being listed. -/
theorem portal_bare_template :
    Enters (State.start 0 (oneService "{tenant}")) (crm "{tenant}") acme "user-1" ∧
    KeyConstraints (oneService "{tenant}") ∧
    ∀ list ∈ [pgListPortalEntries oneOrigin (oneService "{tenant}") "user-1",
        memoryListPortalEntries oneOrigin (oneService "{tenant}") "user-1"],
      ¬Lists (portal oneOrigin (oneService "{tenant}") "user-1" list) acme (crm "{tenant}") := by
  refine ⟨enters_oneService _, keyConstraints_oneService _, fun list hlist => ?_⟩
  have hnone : list = none := by
    rcases List.mem_cons.mp hlist with rfl | hlist
    · decide
    · rw [List.mem_singleton.mp hlist]
      decide
  rw [hnone]
  rintro ⟨email, tenants, hok, _⟩
  cases hok

end Sandbox.Auth.Portal
