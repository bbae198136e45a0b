import Sandbox.Interleave.Knowledge
import Sandbox.Web.Routing
import Sandbox.Web.Tenants

/-!
# Where the Web Process Redirects to

A login remembers a place to return to, which anybody can put into a link.
The browser resolves it against the URL of the callback, so it has to be a
path, also to a parser that takes backslashes for slashes and overlooks tabs.

In every run, whatever a request is redirected to stays at the origin it was
sent to, or is the authorization endpoint. The only place that is not fixed is
the one that a login at the same tenant was asked to return to, and the
parameters for the authorization endpoint are those of the login whose id the
browser is told to keep.

## Main definitions

* `Explained`: Where a reply leads to, and why.
* `course`: What requests keep and learn.

## Theorems

* `sanitizeReturnTo_stays`: A place to return to stays at the origin.
* `knows_login`, `knows_callback`: The two requests that redirect elsewhere.
* `redirects_stay`: The redirects of every run.
-/

namespace Sandbox.Web.Redirects

open Interleave Ttl Knowledge

variable {jose : Jose}

abbrev History (jose : Jose) : Type := List (WebCall jose × Event)

section Places

variable {parseHost : List Char → Option String} {base : Whatwg.Url}

/-- A reference that every browser resolves to the origin it is at. -/
def Stays (location : String) : Prop :=
  ∀ (parseHost : List Char → Option String) (base : Whatwg.Url),
    ∃ url, Whatwg.resolve parseHost base location.toList = some url ∧ url.origin = base.origin

theorem stays_of_path {location : String} (path : List Char) (h : location.toList = '/' :: path)
    (hplain : ∀ c ∈ path, Whatwg.isTabOrNewline c = false)
    (hhead : ∀ c, path.head? = some c → Whatwg.isSlash c = false) : Stays location := by
  intro parseHost base
  rw [h]
  exact Whatwg.resolve_path hplain hhead

theorem stays_root : Stays "/" :=
  stays_of_path [] rfl (fun _ hc => absurd hc List.not_mem_nil) fun _ hc => nomatch hc

theorem stays_loggedOut : Stays "/?logged_out=1" := by
  have hplain : "?logged_out=1".toList.all (fun c => !Whatwg.isTabOrNewline c) = true := by decide
  refine stays_of_path "?logged_out=1".toList (by decide) (fun c hc => ?_)
    (fun c hc => by cases hc; decide)
  simpa using List.all_eq_true.mp hplain c hc

/-- Tabs and line ends are control characters. -/
theorem not_isTabOrNewline {c : Char} (h : isControlCharacter c = false) :
    Whatwg.isTabOrNewline c = false := by
  by_contra htab
  rw [Bool.not_eq_false, Whatwg.isTabOrNewline, Bool.or_eq_true, Bool.or_eq_true] at htab
  rcases htab with (htab | htab) | htab
  all_goals
    rw [beq_iff_eq] at htab
    subst htab
    exact absurd h (by decide)

/-- Whatever is asked for, the place to return to stays at the origin. -/
theorem sanitizeReturnTo_stays (value : Option String) : Stays (sanitizeReturnTo value) := by
  unfold sanitizeReturnTo
  split
  · exact stays_root
  · next value =>
      split
      · next rest hvalue =>
          split
          · exact stays_root
          · next hbad =>
              -- One slash, and neither backslashes nor control characters.
              rw [Bool.or_eq_true, not_or, decide_eq_true_eq, List.any_eq_true, not_exists] at hbad
              rcases hbad with ⟨hhead, hrest⟩
              have hgood : ∀ c ∈ rest, (c == '\\') = false ∧ isControlCharacter c = false := by
                intro c hc
                have hnot := hrest c
                rw [not_and, Bool.or_eq_true, not_or] at hnot
                exact (hnot hc).imp Bool.eq_false_iff.mpr Bool.eq_false_iff.mpr
              refine stays_of_path rest hvalue (fun c hc => not_isTabOrNewline (hgood c hc).2) ?_
              intro c hc
              have hslash : c ≠ '/' := fun heq => hhead (heq ▸ hc)
              rw [Whatwg.isSlash, (hgood c (List.mem_of_mem_head? hc)).1, Bool.or_false]
              exact beq_false_of_ne hslash
      · exact stays_root

example : sanitizeReturnTo (some "/\\evil.test") = "/" := by decide

end Places

section Course

variable (deps : WebDeps jose)

/-- A login is stored by a request to log in, with the place it was asked to
    return to. -/
def Asked (call : WebCall jose) (e : Event) : Prop :=
  ∀ slug id pending, e = .preAuthStored slug id pending →
    ∃ host cookie returnTo, call = .login host cookie returnTo ∧
      pending.returnTo = sanitizeReturnTo returnTo

/-- Where a reply leads to, and why. -/
structure Explained (h : History jose) (call : WebCall jose) (answer : Answer) : Prop where
  redirect : ∀ location, answer.reply = .redirect location →
    location = "/" ∨ location = "/?logged_out=1" ∨
      ∃ slug id pending, (call, .preAuthTaken slug id (some pending)) ∈ h ∧
        location = pending.returnTo
  authorize : ∀ endpoint parameters, answer.reply = .authorize endpoint parameters →
    ∃ client id pending, resolveClient deps call.host = some client ∧
      (call, .preAuthStored client.tenantSlug id pending) ∈ h ∧
      parameters = authorizationParameters deps client pending ∧ answer.preAuthCookie = .write id

/-- Logins are stored as they should be, and nothing that happened is
    forgotten. -/
def course (jose : Jose) : Course WebState Event (WebCall jose) where
  guard := anyStep
  Inv _ h := ∀ call e, (call, e) ∈ h → Asked call e
  Leads _ h _ h' := h ⊆ h'

/-- This has happened. -/
def happened (call : WebCall jose) (e : Event) : Knowledge (course jose) :=
  ofHistory ((call, e) ∈ ·) fun _ _ _ _ hlead hmem => hlead hmem

def explained (call : WebCall jose) (answer : Answer) : Knowledge (course jose) :=
  ofHistory (Explained deps · call answer) fun _ _ _ _ hlead hk =>
    { redirect := fun location hlocation =>
        (hk.redirect location hlocation).imp_right (Or.imp_right
          fun ⟨slug, id, pending, hmem, hplace⟩ => ⟨slug, id, pending, hlead hmem, hplace⟩)
      authorize := fun endpoint parameters hreply => by
        rcases hk.authorize endpoint parameters hreply with ⟨client, id, pending, hc, hmem, hrest⟩
        exact ⟨client, id, pending, hc, hlead hmem, hrest⟩ }

end Course

section Programs

variable {deps : WebDeps jose} {call : WebCall jose} {client : OidcClientConfig}
  {K : Knowledge (course jose)}

theorem inv_log {s : WebState} {h : History jose} {e : Event} (hi : (course jose).Inv s h)
    (he : Asked call e) : (course jose).Inv s ((call, e) :: h) := by
  intro call' e' hmem
  rcases List.mem_cons.mp hmem with heq | hmem
  · cases heq
    exact he
  · exact hi call' e' hmem

/-- An action whose event is not the storing of a login. -/
theorem knows_event {β : Type} {event : β → Event} {f : WebState → β × WebState}
    (he : ∀ b slug id pending, event b ≠ .preAuthStored slug id pending) :
    Knows call K (Prog.logged event f : WebProg jose β) fun b => happened call (event b) :=
  knows_logged fun _ _ hi _ _ => ⟨inv_log hi fun slug id pending heq =>
    absurd heq (he _ slug id pending), List.subset_cons_self _ _, List.mem_cons_self⟩

theorem knows_anything {f : WebState → WebState} :
    Knows call (0 : Knowledge (course jose)) (Prog.write f : WebProg jose Unit) fun _ => 0 :=
  knows_write fun _ h hi _ => ⟨hi, List.Subset.refl h, trivial⟩

/-- The routes forget nothing and store no login besides. -/
theorem routing_course (call : WebCall jose) :
    Routing (fun α (_ : Ignorance) (p : WebProg jose α) _ =>
        Knows call (0 : Knowledge (course jose)) p
      fun _ => 0) fun _ => .ignorant := by
  have hclosed := closed_knows (ω := Outside jose) (course jose) call
  have hdestroyed : ∀ keys, Knows call (0 : Knowledge (course jose))
      (Prog.emit (.sessionsDestroyed keys) : WebProg jose Unit) fun _ => 0 := fun keys =>
    knows_of_gives (gives_refl _) (fun _ => gives_zero _)
      (knows_event fun _ _ _ _ heq => nomatch heq)
  have haside : ∀ {α : Type} {p : WebProg jose α}, Within Unmoved Mute p →
      Knows call (0 : Knowledge (course jose)) p fun _ => 0 := by
    refine fun hp => knows_within hp (fun _ _ h _ hi => ⟨hi, List.Subset.refl h⟩) ?_ 0
    intro s h e he hi
    refine ⟨inv_log hi ?_, List.subset_cons_self _ _⟩
    rintro slug id pending rfl
    exact he.elim
  -- What sessions are stored or destroyed says nothing about redirects.
  refine routing_of_closed hclosed haside ?_ ?_ ?_
  · exact fun session ttl => knows_of_gives (gives_refl _) (fun _ => gives_zero _)
      (knows_event fun _ _ _ _ heq => nomatch heq)
  · exact fun session => hclosed.bind (hclosed.both knows_anything knows_anything) fun _ =>
      hdestroyed _
  · exact fun sid => hclosed.bind (haside (unmoved_read _)) fun keys =>
      hclosed.bind (hclosed.both (hclosed.all fun _ _ => knows_anything) knows_anything) fun _ =>
        hclosed.bind (hdestroyed keys) fun _ => hclosed.pure _

/-- A reply that leads nowhere. -/
theorem explained_elsewhere {answer : Answer}
    (hredirect : ∀ location, answer.reply = .redirect location →
      location = "/" ∨ location = "/?logged_out=1")
    (hauthorize : ∀ endpoint parameters, answer.reply ≠ .authorize endpoint parameters)
    (h : History jose) : Explained deps h call answer where
  redirect location hlocation := by
    rcases hredirect location hlocation with hroot | hout
    · exact .inl hroot
    · exact .inr (.inl hout)
  authorize endpoint parameters heq := absurd heq (hauthorize endpoint parameters)

/-- A page leads nowhere. -/
theorem explained_page {answer : Answer} {title message : String} {status : Nat}
    (hreply : answer.reply = .page title message status) (h : History jose) :
    Explained deps h call answer := by
  refine explained_elsewhere ?_ ?_ h
  all_goals
    rw [hreply]
    exact nofun

/-- A login sends the browser off with what it has stored. -/
theorem knows_login {host cookie returnTo : Option String} {session : Option TenantSession}
    (hcall : call = .login host cookie returnTo) (hclient : resolveClient deps host = some client) :
    Knows call (0 : Knowledge (course jose)) (login deps returnTo ⟨client, session⟩)
      (explained deps call) := by
  have hrouting := routing_course call
  refine knows_bind (hrouting.aside (k := .ignorant) unmoved_getDiscovery) fun discovery => ?_
  cases discovery with
  | error e => exact knows_pure fun _ h _ => explained_page rfl h
  | ok endpoint =>
      refine knows_bind (hrouting.aside (k := .ignorant) unmoved_randomToken) fun preAuthId =>
        knows_bind (hrouting.aside (k := .ignorant) unmoved_randomToken) fun codeVerifier =>
        knows_bind (hrouting.aside (k := .ignorant) unmoved_randomToken) fun state =>
        knows_bind (hrouting.aside (k := .ignorant) unmoved_randomToken) fun nonce => ?_
      -- What is stored under the new id is what the URL asks for.
      let pending : PreAuthState := ⟨state, nonce, codeVerifier, sanitizeReturnTo returnTo⟩
      refine knows_bind (Q := fun _ => happened call
        (.preAuthStored client.tenantSlug preAuthId pending)) ?_ fun _ => ?_
      · refine knows_logged fun s h hi _ _ =>
          ⟨inv_log hi ?_, List.subset_cons_self _ _, List.mem_cons_self⟩
        rintro slug id _ heq
        cases heq
        exact ⟨host, cookie, returnTo, hcall, rfl⟩
      · refine knows_pure fun _ h hmem => ⟨nofun, fun _ _ heq => ?_⟩
        cases heq
        refine ⟨client, preAuthId, pending, ?_, hmem, rfl, rfl⟩
        rw [hcall]
        exact hclient

/-- What follows on taking a login redirects to its place, if anywhere. -/
theorem answers_answerCallback (cookie : Option String) (pending : PreAuthState)
    (query : CallbackQuery) :
    Answers (answerCallback deps client cookie pending query) fun answer =>
      (∀ location, answer.reply = .redirect location → location = pending.returnTo) ∧
      ∀ endpoint parameters, answer.reply ≠ .authorize endpoint parameters := by
  -- An answer with a page leads nowhere.
  have hpage : ∀ (title message : String) (status : Nat),
      Answers (pure (Reply.page title message status).clearPreAuth : WebProg jose Answer)
        fun answer => (∀ location, answer.reply = .redirect location →
          location = pending.returnTo) ∧
          ∀ endpoint parameters, answer.reply ≠ .authorize endpoint parameters :=
    fun _ _ _ => answers_pure ⟨nofun, nofun⟩
  unfold answerCallback
  split
  · exact hpage _ _ _
  split
  · exact hpage _ _ _
  split
  · unfold renderAuthorizationError
    split_ifs
    all_goals exact hpage _ _ _
  split
  · exact hpage _ _ _
  split
  · exact hpage _ _ _
  refine answers_then fun reply => ?_
  cases reply with
  | error e => cases e with | _ => exact hpage _ _ _
  | ok tokens =>
      dsimp only [verifyLogin]
      cases tokens.idToken with
      | none => exact hpage _ _ _
      | some idToken =>
          refine answers_then fun source => answers_then fun now => ?_
          split
          · exact hpage _ _ _
          unfold enterSession
          split
          · split
            · exact hpage _ _ _
            · refine answers_then fun _ => answers_then fun session => answers_pure ⟨?_, nofun⟩
              intro location heq
              exact (Reply.redirect.inj heq).symm
          · exact hpage _ _ _

/-- A callback redirects to the place of the login it has taken. -/
theorem knows_callback {cookie preAuthCookie : Option String} {query : CallbackQuery}
    {session : Option TenantSession} (hslug : isSlug client.tenantSlug.toList = true) :
    Knows call (0 : Knowledge (course jose))
      (callback deps cookie preAuthCookie query ⟨client, session⟩) (explained deps call) := by
  have hrouting := routing_course call
  cases preAuthCookie with
  | none => exact knows_pure fun _ h _ => explained_page rfl h
  | some id =>
      refine knows_bind (knows_event fun _ _ _ _ heq => nomatch heq) fun found => ?_
      cases found with
      | none => exact knows_pure fun _ h _ => explained_page rfl h
      | some pending =>
          -- What was taken stays known over all that follows.
          let taken := happened call (.preAuthTaken client.tenantSlug id (some pending))
          have htaken : taken.Gives (0 + taken) := fun _ _ hk => ⟨trivial, hk⟩
          have hrest : Knows call (0 + taken) (answerCallback deps client cookie pending query)
              fun _ => 0 + taken :=
            knows_frame taken (hrouting.answerCallback (k := .ignorant) hslug
                (fun claims input _ => ?_)
              cookie pending query)
          · refine knows_of_gives htaken (fun answer => ?_)
              (knows_answers hrest (answers_answerCallback cookie pending query))
            rintro s h ⟨⟨_, hmem⟩, hanswer⟩
            constructor
            · exact fun location hlocation =>
                .inr (.inr ⟨_, _, pending, hmem, hanswer.1 location hlocation⟩)
            · exact fun endpoint parameters heq => absurd heq (hanswer.2 endpoint parameters)
          · refine knows_bind (hrouting.aside (k := .ignorant) (unmoved_read _)) fun now =>
              knows_bind (hrouting.aside (k := .ignorant) unmoved_randomToken) fun _ =>
              knows_bind (hrouting.aside (k := .ignorant) unmoved_randomToken) fun _ => ?_
            refine knows_bind (Q := fun _ => 0) ?_ fun _ => knows_pure (gives_refl _)
            exact (closed_knows (course jose) call).both
              (knows_of_gives (gives_refl _) (fun _ => gives_zero _)
                (knows_event fun _ _ _ _ heq => nomatch heq)) knows_anything

/-- Clearing a stale cookie changes neither the reply nor the login's cookie. -/
theorem clearStale_keeps (session : Option TenantSession) (cookie : Option String)
    (answer : Answer) : (clearStale session cookie answer).reply = answer.reply ∧
      (clearStale session cookie answer).preAuthCookie = answer.preAuthCookie := by
  unfold clearStale
  split
  · exact ⟨rfl, rfl⟩
  · exact ⟨rfl, rfl⟩

theorem Explained.clearStale {h : History jose} {answer : Answer}
    (he : Explained deps h call answer)
    (session : Option TenantSession) (cookie : Option String) :
    Explained deps h call (Web.clearStale session cookie answer) := by
  rcases clearStale_keeps session cookie answer with ⟨hreply, hcookie⟩
  constructor
  · rw [hreply]
    exact he.redirect
  · rw [hreply, hcookie]
    exact he.authorize

/-- What is known of a route's answer is known of the request's. -/
theorem knows_tenantContext {host cookie : Option String}
    {next : TenantContext → WebProg jose Answer}
    (hnext : ∀ client session, resolveClient deps host = some client →
      Knows call (0 : Knowledge (course jose)) (next ⟨client, session⟩) (explained deps call)) :
    Knows call (0 : Knowledge (course jose)) (tenantContext deps host cookie next)
      (explained deps call) := by
  unfold tenantContext
  cases hclient : resolveClient deps host with
  | none => exact knows_pure fun _ h _ => explained_page rfl h
  | some client =>
      have hcontext := (routing_course call).contextSession (k := .ignorant)
        (resolveClient_slug hclient) cookie
      refine knows_bind hcontext fun session =>
        knows_bind (hnext client session hclient) fun answer => knows_pure fun _ h hk => ?_
      exact Explained.clearStale hk session cookie

/-- The other requests redirect to fixed places. -/
theorem answers_others (hcall : call.isOfLogin = false) :
    Answers (respond deps call) fun answer => ∀ h, Explained deps h call answer := by
  -- Clearing a stale cookie does not change where an answer leads.
  have hcontext : ∀ (host cookie : Option String) (next : TenantContext → WebProg jose Answer),
      (∀ context, Answers (next context) fun answer => ∀ h, Explained deps h call answer) →
      Answers (tenantContext deps host cookie next) fun answer =>
        ∀ h, Explained deps h call answer := by
    intro host cookie next hnext
    unfold tenantContext
    split
    · exact answers_pure (explained_page rfl)
    · refine answers_then fun session => answers_bind (hnext _) fun answer hanswer => ?_
      exact answers_pure fun h => (hanswer h).clearStale session cookie
  have helse : ∀ answer : Answer, (∀ location, answer.reply ≠ .redirect location) →
      (∀ endpoint parameters, answer.reply ≠ .authorize endpoint parameters) →
      Answers (pure answer : WebProg jose Answer) fun answer =>
        ∀ h, Explained deps h call answer :=
    fun answer hredirect hauthorize => answers_pure
      (explained_elsewhere (fun location heq => absurd heq (hredirect location)) hauthorize)
  cases call with
  | login host cookie returnTo => cases hcall
  | callback host cookie preAuthCookie query => cases hcall
  | logout host cookie csrf =>
      refine hcontext host cookie _ fun context => ?_
      unfold logout
      split
      · refine answers_pure (explained_elsewhere (fun location heq => ?_) nofun)
        exact .inl (Reply.redirect.inj heq).symm
      · split
        · exact answers_pure (explained_page rfl)
        · refine answers_then fun _ => answers_then fun _ =>
            answers_pure (explained_elsewhere (fun location heq => ?_) nofun)
          exact .inr (Reply.redirect.inj heq).symm
  | session host cookie => exact hcontext host cookie _ fun context => helse _ nofun nofun
  | api host cookie request =>
      refine hcontext host cookie _ fun context => ?_
      unfold proxy
      split
      · exact helse _ nofun nofun
      split
      · exact helse _ nofun nofun
      split
      · exact helse _ nofun nofun
      split
      · exact helse _ nofun nofun
      refine answers_then fun result => ?_
      split
      all_goals exact helse _ nofun nofun
  | backchannel logoutToken =>
      change Answers (backchannel deps logoutToken) _
      unfold backchannel
      split
      · exact helse _ nofun nofun
      refine answers_then fun source => answers_then fun now => ?_
      split
      · exact helse _ nofun nofun
      split
      · exact helse _ nofun nofun
      exact answers_then fun _ => helse _ nofun nofun

theorem knows_respond (deps : WebDeps jose) (call : WebCall jose) :
    Knows call (0 : Knowledge (course jose)) (respond deps call) (explained deps call) := by
  cases hcall : call.isOfLogin with
  | false =>
      refine knows_of_gives (gives_refl _) (fun answer _ h hk => ?_)
        (knows_answers ((routing_course call).respond (k := .ignorant)
            (fun _ => le_refl _) deps call hcall)
          (answers_others hcall))
      exact hk.2 h
  | true =>
      cases call with
      | login host cookie returnTo =>
          exact knows_tenantContext fun _ _ hclient => knows_login rfl hclient
      | callback host cookie preAuthCookie query =>
          exact knows_tenantContext fun _ _ hclient => knows_callback (resolveClient_slug hclient)
      | _ => cases hcall

end Programs

section Runs

variable {deps : WebDeps jose} {now : Int}
  {p : Pool WebState (Outside jose) Event (WebCall jose) fun _ => Answer}

theorem explained_of_run (h : Reachable (webSystem deps) anyStep (.start now) p)
    {call : WebCall jose} {answer : Answer} (hmem : ⟨call, .done answer⟩ ∈ p.threads) :
    (∀ call e, (call, e) ∈ p.trace → Asked call e) ∧ Explained deps p.trace call answer := by
  have hstart : (course jose).Inv (WebState.start now) ([] : History jose) :=
    fun _ _ hmem => absurd hmem List.not_mem_nil
  have htick : ∀ (s : WebState) (hist : History jose) (seconds : Nat) (s' : WebState),
      (webSystem deps).env seconds s = some s' → (course jose).Inv s hist →
        (course jose).Inv s' hist ∧ (course jose).Leads s hist s' hist :=
    fun _ hist _ _ _ hi => ⟨hi, List.Subset.refl hist⟩
  have hknown := knowing_of_reachable (explained deps) (knows_respond deps) htick hstart h
  rcases List.getElem?_of_mem hmem with ⟨i, hi⟩
  have hinv : (course jose).Inv p.store p.trace :=
    inv_of_reachable (fun call => knows_of_gives (gives_refl _) (fun _ => gives_zero _)
      (knows_respond deps call)) htick hstart h
  exact ⟨hinv, finished_knows hknown hi⟩

/-- In every run, a request is redirected to a place at the origin it was sent
    to, which is fixed or one that a login at its tenant was asked to return
    to, or to the authorization endpoint, with the parameters of the login
    whose id the browser keeps. -/
theorem redirects_stay (deps : WebDeps jose) (now : Int)
    (p : Pool WebState (Outside jose) Event (WebCall jose) fun _ => Answer)
    (h : Reachable (webSystem deps) anyStep (.start now) p) (call : WebCall jose) (answer : Answer)
    (hmem : ⟨call, .done answer⟩ ∈ p.threads) :
    (∀ location, answer.reply = .redirect location → Stays location ∧
      (location = "/" ∨ location = "/?logged_out=1" ∨
        ∃ host cookie returnTo slug, location = sanitizeReturnTo returnTo ∧ call.At deps slug ∧
          WebCall.At deps (.login host cookie returnTo : WebCall jose) slug ∧
          ∃ id pending, (.login host cookie returnTo, .preAuthStored slug id pending) ∈ p.trace ∧
            (call, .preAuthTaken slug id (some pending)) ∈ p.trace)) ∧
    ∀ endpoint parameters, answer.reply = .authorize endpoint parameters →
      ∃ client id pending, resolveClient deps call.host = some client ∧
        (call, .preAuthStored client.tenantSlug id pending) ∈ p.trace ∧
        parameters = authorizationParameters deps client pending ∧
        answer.preAuthCookie = .write id := by
  rcases explained_of_run h hmem with ⟨hasked, hexplained⟩
  refine ⟨fun location hlocation => ?_, hexplained.authorize⟩
  rcases hexplained.redirect location hlocation with rfl | rfl | ⟨slug, id, pending, htaken, rfl⟩
  · exact ⟨stays_root, .inl rfl⟩
  · exact ⟨stays_loggedOut, .inr (.inl rfl)⟩
  · -- The login that was taken was begun at the same tenant.
    have hseparated := separated_of_reachable h
    rcases hseparated.taken call slug id pending htaken with ⟨hat, begun, hbegun⟩
    rcases hasked begun _ hbegun slug id pending rfl with ⟨host, cookie, returnTo, rfl, hplace⟩
    refine ⟨hplace ▸ sanitizeReturnTo_stays returnTo, .inr (.inr ?_)⟩
    exact ⟨host, cookie, returnTo, slug, hplace, hat, hseparated.stored _ _ _ _ hbegun, id, pending,
      hbegun, htaken⟩

end Runs

section Example

/-- A login that is to return to a page, and its callback. -/
def returningMoves : List (Move (Outside openJose) (WebCall openJose) Nat) :=
  [.spawn (.login (some "acme.crm.test") none (some "/projects?page=2")),
    .run 0 (.discovered (.ok "https://auth.test/authorize"))] ++
  ['a', 'b', 'c', 'd'].map (fun c => .run 0 (.random (token32 c))) ++
  [.run 0 .none,
    .spawn (.callback (some "acme.crm.test") none (some (token32 'a'))
      ⟨some (token32 'c'), none, none, none, some "code"⟩),
    .run 1 .none, .run 1 .none, .run 1 (.tokens (.ok ⟨"A", 900, some acmeIdToken, "R"⟩)),
    .run 1 (.jwks fun _ => .ok ["key"]), .run 1 .none, .run 1 .none,
    .run 1 (.random (token32 'e')), .run 1 (.random (token32 'f')),
    .run 1 .none, .run 1 .none, .run 1 .none]

/-- A finished request that is redirected to the page. -/
def isReturned (t : Thread WebState (Outside openJose) Event (WebCall openJose) fun _ => Answer) :
    Bool :=
  t.prog.answer.any fun answer => answer.reply = .redirect "/projects?page=2"

theorem acme_returns :
    ∃ p, Reachable (webSystem crmWeb) anyStep (.start 1000) p ∧
      ∃ call answer, ⟨call, .done answer⟩ ∈ p.threads ∧
        answer.reply = .redirect "/projects?page=2" ∧ Stays "/projects?page=2" := by
  rcases reachable_of_play_any (webSystem crmWeb) anyStep (.start 1000) returningMoves
    (fun p => p.threads.any isReturned) (by decide +kernel) with ⟨p, hp, htest⟩
  rcases List.any_eq_true.mp htest with ⟨⟨call, prog⟩, hmem, ht⟩
  rcases (Option.any_eq_true _ _).mp ht with ⟨answer, hanswer, hreply⟩
  have hprog : prog = .done answer := eq_done_of_answer hanswer
  rw [hprog] at hmem
  have hplace := of_decide_eq_true hreply
  exact ⟨p, hp, call, answer, hmem, hplace,
    ((redirects_stay crmWeb 1000 p hp call answer hmem).1 _ hplace).1⟩

end Example

end Sandbox.Web.Redirects
