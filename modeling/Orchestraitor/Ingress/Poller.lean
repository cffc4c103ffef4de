import Orchestraitor.Base.Prim
import Orchestraitor.Base.CallState

/-!
# The event poller

`EventPoller::poll_one` over one repository events feed: a conditional request, the pages of the
answer, and each item through the durable dedup table into the bounded queue.  The poller is a program
over the calls to its credentials, the platform, the intake store and the queue, and works on the
`IngressStore`.

* The two tables of the store are partial maps from their primary keys; `sqlite` answers whether a call
  of the store succeeds.
* A response has its headers as the poller reads them.  What `serde_json` makes of a body is part of the
  body: nothing, or for each item the item, if it has the shape.
* `reqwest::Url::parse` is `origin`: scheme, host and port.
-/

namespace Ingress
open Base CallState

/-! ## the store -/

def i64Max : Nat := 9223372036854775807

/-- 30 days -/
def redeliveryWindowSecs : Nat := 30 * 24 * 60 * 60

structure EndpointRow where
  etag : Option String := none
  pollAfterSecs : Nat := 0
  notModified : Bool := false
  everBaselined : Bool := false
  lastSeenRawId : Nat := 0

structure IngressStore where
  deliveries : String → Option Nat
  endpoints : String → Option EndpointRow

namespace IngressStore

def deliveryKey (deliveryId repo eventType : String) (headSha : Option String) : String :=
  deliveryId ++ "|" ++ repo ++ "|" ++ eventType ++ "|" ++ headSha.getD ""

variable (s : IngressStore)

def upsert (endpoint : String) (f : EndpointRow → EndpointRow) : IngressStore :=
  { s with
    endpoints := Function.update s.endpoints endpoint (some (f ((s.endpoints endpoint).getD {}))) }

def prune (now : Nat) : String → Option Nat := fun key =>
  (s.deliveries key).filter fun seen => now - redeliveryWindowSecs ≤ seen

def recordDelivery (key : String) (now : Nat) : Bool × IngressStore :=
  match s.prune now key with
  | some _ => (false, { s with deliveries := s.prune now })
  | none => (true, { s with deliveries := Function.update (s.prune now) key (some now) })

def recordMaxRawId (endpoint : String) (rawId : Nat) : IngressStore :=
  s.upsert endpoint fun row => { row with lastSeenRawId := max row.lastSeenRawId (min rawId i64Max) }

def maxRawId (endpoint : String) : Option Nat :=
  ((s.endpoints endpoint).map (·.lastSeenRawId)).filter (0 < ·)

def markBaselined (endpoint : String) : IngressStore :=
  s.upsert endpoint fun row => { row with everBaselined := true }

def isBaselined (endpoint : String) : Bool :=
  (s.endpoints endpoint).any (·.everBaselined)

def recordConditional (endpoint : String) (etag : Option String) (pollAfterSecs : Nat)
    (notModified : Bool) : IngressStore :=
  s.upsert endpoint fun row => { row with etag, pollAfterSecs, notModified }

def etagFor (endpoint : String) : Option String :=
  (s.endpoints endpoint).bind (·.etag)

end IngressStore

/-! ## items -/

inductive IdValue where
  | number (text : String)
  | string (text : String)
  | other
  deriving DecidableEq

structure RestUser where
  login : Option String
  userType : Option String
  deriving DecidableEq

structure RestActor where
  login : Option String
  deriving DecidableEq

structure RestIssueRef where
  number : Nat
  pullRequest : Bool
  user : Option RestUser
  deriving DecidableEq

structure RestPullHead where
  sha : Option String
  deriving DecidableEq

structure RestPullRef where
  number : Nat
  head : Option RestPullHead
  user : Option RestUser
  deriving DecidableEq

structure RestPayload where
  action : Option String
  issue : Option RestIssueRef
  pullRequest : Option RestPullRef
  deriving DecidableEq

structure RestEventItem where
  id : Option IdValue
  kind : String
  actor : Option RestActor
  payload : Option RestPayload
  deriving DecidableEq

structure PollTarget where
  url : String
  key : String
  repo : String

structure IngressEvent where
  deliveryKey : String
  repo : String
  eventType : String
  headSha : Option String
  number : Nat
  authorLogin : Option String
  authorIsBot : Option Bool
  acceptedAtSecs : Nat

def valueToId : IdValue → Option String
  | .number text => some text
  | .string text => if text.isEmpty then none else some text
  | .other => none

def decimal (digits : List Char) : Nat :=
  digits.foldl (fun n c => 10 * n + (c.toNat - '0'.toNat)) 0

def parseU64 (text : String) : Option Nat :=
  let digits := match text.toList with
    | '+' :: rest => rest
    | chars => chars
  if !digits.isEmpty && digits.all Char.isDigit && decimal digits ≤ u64Max then some (decimal digits)
  else none

def rawId (item : RestEventItem) : Option Nat := (item.id.bind valueToId).bind parseU64

def normalizeEventType (kind : String) (issueMarksPull : Bool) (action : Option String) :
    Option String :=
  match kind, action, issueMarksPull with
  | "IssuesEvent", some "opened", false => some "issues-opened"
  | "IssueCommentEvent", some "created", false => some "issue-commented"
  | "IssueCommentEvent", some "created", true => some "pr-commented"
  | _, _, _ => none

def authorFacts (payloadUser : Option RestUser) (actor : Option RestActor) :
    Option String × Option Bool :=
  match payloadUser with
  | some user => (user.login.filter (!·.isEmpty), user.userType.map (· == "Bot"))
  | none => ((actor.bind (·.login)).filter (!·.isEmpty), none)

structure DerivedItem where
  deliveryKey : String
  eventType : String
  headSha : Option String
  number : Nat
  authorLogin : Option String
  authorIsBot : Option Bool
  deriving DecidableEq

def itemDerived (item : RestEventItem) (target : PollTarget) : Option DerivedItem := do
  let pull := item.payload.bind (·.pullRequest)
  let issue := item.payload.bind (·.issue)
  let isPull := pull.isSome || issue.any (·.pullRequest)
  let eventType ← normalizeEventType item.kind isPull (item.payload.bind (·.action))
  let deliveryId ← item.id.bind valueToId
  let headSha := if isPull then (pull.bind (·.head)).bind (·.sha) else none
  let number? := if isPull then (pull.map (·.number)).or (issue.map (·.number))
    else issue.map (·.number)
  let number ← number?
  let (authorLogin, authorIsBot) := if isPull then authorFacts (pull.bind (·.user)) item.actor
    else authorFacts (issue.bind (·.user)) item.actor
  pure
    { deliveryKey := IngressStore.deliveryKey deliveryId target.repo eventType headSha
      eventType, headSha, number, authorLogin, authorIsBot }

def DerivedItem.event (derived : DerivedItem) (target : PollTarget) (now : Nat) : IngressEvent :=
  { deliveryKey := derived.deliveryKey
    repo := target.repo
    eventType := derived.eventType
    headSha := derived.headSha
    number := derived.number
    authorLogin := derived.authorLogin
    authorIsBot := derived.authorIsBot
    acceptedAtSecs := now }

/-! ## calls -/

def defaultPollAfterSecs : Nat := 60
def rateLimitFallbackSecs : Nat := 300
def maxResponseBytes : Nat := 8 * 1024 * 1024
def maxPagesPerPoll : Nat := 10

structure Body where
  length : Nat
  /-- `none` when it is not an array; an item is `none` when it has not the shape -/
  items : Option (List (Option RestEventItem))

structure Response where
  status : Nat
  pollInterval : Option Nat := none
  rateLimitRemaining : Option String := none
  retryAfter : Option (Option Nat) := none
  rateLimitReset : Option Nat := none
  etag : Option String := none
  link : Option String := none
  contentLength : Option Nat := none
  body : Option Body

def Response.isSuccess (response : Response) : Bool := 200 ≤ response.status && response.status < 300

inductive PushOutcome where
  | accepted
  | duplicate
  | dropped

inductive Query where
  | sqlite
  | bearerToken
  | get (url : String) (ifNoneMatch : Option String)
  | intakePut (event : IngressEvent)
  | push (event : IngressEvent) (now : Nat)

@[reducible] def Answer : Query → Type
  | .sqlite | .bearerToken | .intakePut _ => Bool
  | .get .. => Option Response
  | .push .. => PushOutcome

inductive PollError where
  | rateLimited (retryAfterSecs : Nat)
  | failed
  deriving DecidableEq

structure PollOutcome where
  accepted : Nat := 0
  duplicates : Nat := 0
  dropped : Nat := 0
  intakeMirrorFailed : Nat := 0
  pollAfterSecs : Nat := 0
  deriving DecidableEq

abbrev PollM := CallState Answer PollError IngressStore

def call (q : Query) : PollM (Answer q) := ask q

def readStore {α : Type} (f : IngressStore → α) : PollM α := do
  if ← call .sqlite then pure (f (← get)) else fail .failed

def writeStore (f : IngressStore → IngressStore) : PollM Unit := do
  if ← call .sqlite then update f else fail .failed

def recordDelivery (key : String) (now : Nat) : PollM Bool := do
  if i64Max < now then fail .failed
  else if ← call .sqlite then
    let s ← get
    update fun s => (s.recordDelivery key now).2
    pure (s.recordDelivery key now).1
  else fail .failed

def recordConditional (endpoint : String) (etag : Option String) (pollAfterSecs : Nat)
    (notModified : Bool) : PollM Unit :=
  if i64Max < pollAfterSecs then fail .failed
  else writeStore (·.recordConditional endpoint etag pollAfterSecs notModified)

def fetch (url : String) (ifNoneMatch : Option String) : PollM Response := do
  if ← call .bearerToken then
    match ← call (.get url ifNoneMatch) with
    | some response => pure response
    | none => fail .failed
  else fail .failed

/-! ## pages -/

def trimMatches (start stop : Char) (l : List Char) : List Char :=
  ((l.dropWhile (· = start)).reverse.dropWhile (· = stop)).reverse

def nextPart (part : List Char) : Option String :=
  match part.splitOn ';' with
  | [] => none
  | urlPart :: params =>
    let isNext := params.any fun param =>
      let param := trimList param
      "rel=".toList.isPrefixOf param && trimMatches '"' '"' (param.drop 4) == "next".toList
    if isNext then some (String.ofList (trimMatches '<' '>' (trimList urlPart))) else none

def nextLink (header : String) : Option String := (header.toList.splitOn ',').findSome? nextPart

def reached (last : Option Nat) (item : RestEventItem) : Bool :=
  (rawId item).any fun id => last.any (id ≤ ·)

def raise (highest : Option Nat) (id : Nat) : Option Nat := some (highest.elim id (max · id))

def highestRawId (highest : Option Nat) (items : List RestEventItem) : Option Nat :=
  (items.filterMap rawId).foldl raise highest

structure EventPoller where
  origin : String → Option (String × Option String × Option Nat)
  intake : Bool

namespace EventPoller

variable (poller : EventPoller)

def sameOrigin (next base : String) : Bool :=
  match poller.origin next, poller.origin base with
  | some n, some b => n == b
  | _, _ => false

def nextUrl (target : PollTarget) (link : Option String) : Option String :=
  (link.bind nextLink).filter fun next => !next.isEmpty && poller.sameOrigin next target.url

def pageItems (current : Response) : PollM (List RestEventItem) := do
  if current.contentLength.any (maxResponseBytes < ·) then fail .failed
  else match current.body with
    | none => fail .failed
    | some body =>
      if maxResponseBytes < body.length then fail .failed
      else match body.items with
        | none => fail .failed
        | some raw => pure (raw.filterMap id)

/-- the items of this page and of at most `left` more, and the highest raw id -/
def followPages (poller : EventPoller) (target : PollTarget) (last : Option Nat) (left : Nat)
    (current : Response) (items : List RestEventItem) (highest : Option Nat) :
    PollM (List RestEventItem × Option Nat) := do
  let page ← pageItems current
  let highest := highestRawId highest page
  if !page.isEmpty && page.all (reached last) then pure (items ++ page, highest)
  else match left, poller.nextUrl target current.link with
    | left + 1, some next =>
      let response ← fetch next none
      if response.isSuccess then
        poller.followPages target last left response (items ++ page) highest
      else fail .failed
    -- the page cap is a successful partial poll
    | _, _ => pure (items ++ page, highest)

/-! ## items -/

def mirror (event : IngressEvent) : PollM Bool :=
  if event.eventType = "issues-opened" && poller.intake then call (.intakePut event) else pure true

def counted (outcome : PollOutcome) : PushOutcome → PollOutcome
  | .accepted => { outcome with accepted := outcome.accepted + 1 }
  | .duplicate => { outcome with duplicates := outcome.duplicates + 1 }
  | .dropped => { outcome with dropped := outcome.dropped + 1 }

def offer (event : IngressEvent) (now : Nat) (outcome : PollOutcome) :
    PollM PollOutcome := do
  let mirrored ← poller.mirror event
  let outcome := if mirrored then outcome
    else { outcome with intakeMirrorFailed := outcome.intakeMirrorFailed + 1 }
  let pushed ← call (.push event now)
  pure (counted outcome pushed)

def processItem (target : PollTarget) (now : Nat) (last : Option Nat) (item : RestEventItem)
    (outcome : PollOutcome) : PollM PollOutcome := do
  match itemDerived item target with
  | none => pure outcome
  | some derived =>
    if reached last item then pure outcome
    else
      let isNew ← recordDelivery derived.deliveryKey now
      if isNew then poller.offer (derived.event target now) now outcome
      else pure { outcome with duplicates := outcome.duplicates + 1 }

def processItems (poller : EventPoller) (target : PollTarget) (now : Nat) (last : Option Nat) :
    List RestEventItem → PollOutcome → PollM PollOutcome
  | [], outcome => pure outcome
  | item :: items, outcome => do
    let outcome ← poller.processItem target now last item outcome
    poller.processItems target now last items outcome

/-! ## the poll -/

def rateLimitWaitSecs (response : Response) (now : Nat) : Nat :=
  match response.retryAfter.join, response.rateLimitReset with
  | some after, _ => after
  | none, some reset => max (reset - now) defaultPollAfterSecs
  | none, none => rateLimitFallbackSecs

def baseline (target : PollTarget) (now : Nat) (items : List RestEventItem) : PollM Unit := do
  forEach (items.filterMap fun item => (itemDerived item target).map (·.deliveryKey)) fun key => do
    let _ ← recordDelivery key now
  forEach (items.filterMap rawId) fun id => writeStore (·.recordMaxRawId target.key id)
  writeStore (·.markBaselined target.key)

def pollChanged (target : PollTarget) (now : Nat) (response : Response) (pollAfter : Nat) :
    PollM PollOutcome := do
  let baselined ← readStore (·.isBaselined target.key)
  let last ← readStore (·.maxRawId target.key)
  let (items, highest) ← poller.followPages target last (maxPagesPerPoll - 1) response [] last
  if !baselined then
    baseline target now items
    recordConditional target.key response.etag pollAfter false
    pure { pollAfterSecs := pollAfter }
  else
    let outcome ← poller.processItems target now last items { pollAfterSecs := pollAfter }
    match highest with
    | some id => writeStore (·.recordMaxRawId target.key id)
    | none => pure ()
    recordConditional target.key response.etag pollAfter false
    pure outcome

def pollOne (target : PollTarget) (now : Nat) : PollM PollOutcome := do
  let etag ← readStore (·.etagFor target.key)
  let response ← fetch target.url etag
  let pollAfter := response.pollInterval.getD defaultPollAfterSecs
  let limited403 := response.status = 403 &&
    (response.rateLimitRemaining = some "0" || response.retryAfter.isSome)
  if response.status = 304 then
    recordConditional target.key etag pollAfter true
    pure { pollAfterSecs := pollAfter }
  else if response.status = 429 || limited403 then
    let wait := rateLimitWaitSecs response now
    recordConditional target.key etag wait false
    fail (.rateLimited wait)
  else if !response.isSuccess then
    recordConditional target.key etag pollAfter false
    fail .failed
  else poller.pollChanged target now response pollAfter

end EventPoller

end Ingress
