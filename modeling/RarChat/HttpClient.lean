import RarChat.MainLoop
import RarChat.Text

/-!
# What the HTTP client makes of a request

`run_attempt` hands one `POST` to its HTTP client, with the key as a bearer token.  Two
things that the client does of its own matter to where a key goes.

A key that is no header value makes no request: building it fails, and `send()` returns the
error of the builder at once (`MainEnv.sending`).  And the client is built with the default
policy for redirects: it follows the locations that the other side names, keeps the body on
a `307` or a `308`, and takes the key off where a location is on another host or port than
the one before (`Outgoing.redirected`).  So no request with the key is addressed to a host
but that of the URL it was put on (`outgoing_guarded`), although the conversation may go
elsewhere.
-/

namespace RarChat

/-! ## Building a request -/

/-- The bytes a header value may have: all but control characters, and a tab. -/
def isHeaderValue (text : String) : Bool :=
  (asBytes text).all fun b => b = 9 || (32 ≤ b && b ≠ 127)

/-- What sending comes to with the key of this endpoint: what the other side does, or the
error of the builder, unless the turn is cancelled first. -/
def OpenAiConfig.sending (cfg : OpenAiConfig) (builderError : String) (wire : Wire) : Wire :=
  if isHeaderValue cfg.apiKey then wire
  else
    match wire with
    | .cancelled after => .cancelled after
    | _ => .connectError 0 builderError

/-- What becomes of a line, with the keys of both endpoints. -/
def MainEnv.sending (env : MainEnv) (builderError : String) (input : UserInput) :
    UserInput where
  line := input.line
  primary := input.primary.map (env.primary.sending builderError)
  failover := input.failover.map fun wire =>
    (env.failover.map fun fd => fd.sending builderError wire).getD wire

/-- The keys of the endpoints are header values. -/
def MainEnv.Sendable (env : MainEnv) : Prop :=
  ∀ cfg ∈ env.primary :: env.failover.toList, isHeaderValue cfg.apiKey = true

/-- **With keys that can be sent**, sending comes to what the other side does. -/
theorem MainEnv.Sendable.sending_eq {env : MainEnv} (sendable : env.Sendable)
    (builderError : String) (lines : List UserInput) :
    lines.map (env.sending builderError) = lines := by
  refine (List.map_congr_left fun input _ => ?_).trans (List.map_id _)
  have hsame : ∀ cfg ∈ env.primary :: env.failover.toList,
      cfg.sending builderError = id := fun cfg hcfg =>
    funext fun wire => if_pos (sendable cfg hcfg)
  have hprimary := hsame env.primary List.mem_cons_self
  cases hfailover : env.failover with
  | none =>
      simp only [MainEnv.sending, hprimary, hfailover, List.map_id, Option.map_none,
        Option.getD_none, List.map_id']
      rfl
  | some fd =>
      have hfd := hsame fd (by simp [hfailover])
      simp only [MainEnv.sending, hprimary, hfailover, hfd, List.map_id, Option.map_some,
        Option.getD_some, id, List.map_id']

/-! ## Redirects -/

/-- A request that leaves the process. -/
structure Outgoing where
  url : String
  bearerAuth : Option String
  json : Option ChatRequest
deriving DecidableEq, Repr

/-- A redirect that is followed: the location it names, and whether the status is one of
those that keep the method and the body. -/
structure Redirect where
  location : String
  keepsBody : Bool
deriving DecidableEq, Repr

/-- The request as it is handed to the client, if it can be built. -/
def Post.outgoing (post : Post) : Option Outgoing :=
  if isHeaderValue post.bearerAuth then some ⟨post.url, some post.bearerAuth, some post.json⟩
  else none

section

variable {α : Type} [DecidableEq α] (authority : String → α)

/-- The request behind a redirect; `authority` is the host and the port of a URL. -/
def Outgoing.redirected (r : Outgoing) (redirect : Redirect) : Outgoing where
  url := redirect.location
  bearerAuth := if authority redirect.location = authority r.url then r.bearerAuth else none
  json := if redirect.keepsBody then r.json else none

/-- All requests that leave the process for one `POST`, if the client follows these
redirects. -/
def Post.allOutgoing (post : Post) (redirects : List Redirect) : List Outgoing :=
  match post.outgoing with
  | none => []
  | some first => redirects.scanl (Outgoing.redirected authority) first

/-- **A key stays with its host**: a request that carries one carries that of the `POST`,
and goes to the host and the port of its URL. -/
theorem outgoing_guarded (post : Post) (redirects : List Redirect) :
    ∀ r ∈ post.allOutgoing authority redirects, ∀ key, r.bearerAuth = some key →
      key = post.bearerAuth ∧ authority r.url = authority post.url := by
  have hchain : ∀ (redirects : List Redirect) (first : Outgoing),
      (∀ key, first.bearerAuth = some key →
        key = post.bearerAuth ∧ authority first.url = authority post.url) →
      ∀ r ∈ redirects.scanl (Outgoing.redirected authority) first, ∀ key,
        r.bearerAuth = some key →
          key = post.bearerAuth ∧ authority r.url = authority post.url := by
    intro redirects
    induction redirects with
    | nil =>
        intro first guarded r hr
        rw [List.scanl_nil, List.mem_singleton] at hr
        rw [hr]
        exact guarded
    | cons redirect redirects ih =>
        intro first guarded r hr
        rw [List.scanl_cons] at hr
        rcases List.mem_cons.mp hr with rfl | hr
        · exact guarded
        · refine ih (first.redirected authority redirect) (fun key hkey => ?_) r hr
          simp only [Outgoing.redirected] at hkey ⊢
          split_ifs at hkey with hsame
          obtain ⟨hown, hhost⟩ := guarded key hkey
          exact ⟨hown, hsame.trans hhost⟩
  intro r hr
  unfold Post.allOutgoing Post.outgoing at hr
  split_ifs at hr with hbuilt
  · refine hchain redirects _ (fun key hkey => ?_) r hr
    exact ⟨(Option.some.inj hkey).symm, rfl⟩
  · cases hr

end

end RarChat
