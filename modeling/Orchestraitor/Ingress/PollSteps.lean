import Mathlib.Data.List.TakeWhile
import Mathlib.Data.List.Nodup
import Mathlib.Data.List.Count
import Orchestraitor.Ingress.Poller

/-!
# The steps of a poll

What the parts of a poll do to the store and what they offer to the queue, when the platform answers as
`serve` says: the pages it follows (`followPages_does`), the items it processes (`processItems_does`), and
the two tables of the store.  A feed lists its events newest first, so a page that the boundary covers is
the last one worth reading.
-/

namespace Ingress
open Base CallState List

/-! ## feeds -/

/-- numeric ids from `least` on that fit `i64`, newest first -/
structure Feed (least : Nat) (feed : List RestEventItem) : Prop where
  numbered : ∀ item ∈ feed, ∃ id, rawId item = some id ∧ least ≤ id ∧ id ≤ i64Max
  newestFirst : feed.Pairwise fun x y => ∀ i ∈ rawId x, ∀ j ∈ rawId y, j < i

/-- what a later feed has and an earlier one has not is newer than the earlier one -/
def Grows (earlier later : List RestEventItem) : Prop :=
  ∀ x ∈ later, x ∉ earlier → ∀ y ∈ earlier, ∀ i ∈ rawId x, ∀ j ∈ rawId y, j < i

/-- every item of the page has the shape -/
def Carries (response : Response) (page : List RestEventItem) : Prop :=
  ∀ body ∈ response.body, body.items = some (page.map some)

/-- the pages that the links of a response lead through -/
def Lists (poller : EventPoller) (target : PollTarget)
    (serve : String → Option String → Option Response) : List (List RestEventItem) → Response → Prop
  | [], _ => False
  | page :: rest, response => Carries response page ∧
    match poller.nextUrl target response.link with
    | none => rest = []
    | some url => ∀ response' ∈ serve url none, Lists poller target serve rest response'

/-- a poll at `now`, the feed that it sees and how that is cut into pages -/
structure Poll where
  now : Nat
  feed : List RestEventItem
  pages : List (List RestEventItem)
  answers : (q : Query) → Answer q

namespace Poll

def serve (p : Poll) (url : String) (tag : Option String) : Option Response := p.answers (.get url tag)

/-- One consistent snapshot of the feed.  `version` is the feed for which an `ETag` was given out: with a
304 the platform says that there is nothing beyond it. -/
structure Sees (p : Poll) (poller : EventPoller) (target : PollTarget)
    (version : String → List RestEventItem) : Prop where
  pages : p.pages.flatten = p.feed
  first : p.feed ≠ [] → p.pages.head? ≠ some []
  lists : ∀ tag, ∀ response ∈ p.serve target.url tag, response.isSuccess = true →
    Lists poller target p.serve p.pages response
  tagged : ∀ tag, ∀ response ∈ p.serve target.url tag, response.isSuccess = true →
    ∀ e ∈ response.etag, version e = p.feed
  unchanged : ∀ tag, ∀ response ∈ p.serve target.url tag, response.status = 304 →
    ∃ e, tag = some e ∧ ∀ item ∈ p.feed, item ∈ version e

def run (p : Poll) (poller : EventPoller) (target : PollTarget) (s : IngressStore) :
    Except PollError PollOutcome × IngressStore :=
  (poller.pollOne target p.now s).eval p.answers

def offer? (e : Sigma Answer) : Option IngressEvent :=
  match e.1 with
  | .push event _ => some event
  | _ => none

def offered (p : Poll) (poller : EventPoller) (target : PollTarget) (s : IngressStore) :
    List IngressEvent :=
  ((poller.pollOne target p.now s).trace (fun _ q => (p.answers q, ())) ()).filterMap offer?

end Poll

/-! ## rules of the calls -/

def offering (serve : String → Option String → Option Response) :
    Calls.Monitor Answer (List IngressEvent) :=
  { permits := fun _ _ => True
    expects := fun _ q a => match q, a with
      | .get url tag, a => a = serve url tag
      | _, _ => True
    next := fun k q a => k ++ (Poll.offer? ⟨q, a⟩).toList }

section
variable {serve : String → Option String → Option Response} {α : Type} {s : IngressStore}
  {k : List IngressEvent}

abbrev Does (serve : String → Option String → Option Response)
    (post : α → IngressStore → List IngressEvent → Prop) (x : PollM α) (s : IngressStore)
    (k : List IngressEvent) : Prop := x.Meets (offering serve) post (fun _ _ _ => True) s k

theorem does_call {q : Query} {post : Answer q → IngressStore → List IngressEvent → Prop}
    (hq : ∀ a, Poll.offer? ⟨q, a⟩ = none) (h : ∀ a, post a s k) : Does serve post (call q) s k := by
  refine meets_ask.mpr ⟨trivial, fun a _ => ?_⟩
  show post a s (k ++ (Poll.offer? ⟨q, a⟩).toList)
  rw [hq a, Option.toList_none, append_nil]
  exact h a

theorem does_readStore {f : IngressStore → α} {post : α → IngressStore → List IngressEvent → Prop}
    (h : post (f s) s k) : Does serve post (readStore f) s k := by
  refine meets_bind.mpr (does_call (fun _ => rfl) fun ok => ?_)
  cases ok with
  | true => exact h
  | false => trivial

theorem does_writeStore {f : IngressStore → IngressStore}
    {post : Unit → IngressStore → List IngressEvent → Prop} (h : post () (f s) k) :
    Does serve post (writeStore f) s k := by
  refine meets_bind.mpr (does_call (fun _ => rfl) fun ok => ?_)
  cases ok with
  | true => exact h
  | false => trivial

theorem does_recordDelivery {key : String} {now : Nat}
    {post : Bool → IngressStore → List IngressEvent → Prop}
    (h : post (s.recordDelivery key now).1 (s.recordDelivery key now).2 k) :
    Does serve post (recordDelivery key now) s k := by
  unfold recordDelivery
  split_ifs
  · trivial
  refine meets_bind.mpr (does_call (fun _ => rfl) fun ok => ?_)
  cases ok with
  | true => exact h
  | false => trivial

theorem does_recordConditional {endpoint : String} {etag : Option String} {pollAfter : Nat}
    {notModified : Bool} {post : Unit → IngressStore → List IngressEvent → Prop}
    (h : post () (s.recordConditional endpoint etag pollAfter notModified) k) :
    Does serve post (recordConditional endpoint etag pollAfter notModified) s k := by
  unfold recordConditional
  split_ifs
  · trivial
  · exact does_writeStore h

theorem does_fetch {url : String} {tag : Option String}
    {post : Response → IngressStore → List IngressEvent → Prop}
    (h : ∀ response ∈ serve url tag, post response s k) : Does serve post (fetch url tag) s k := by
  refine meets_bind.mpr (does_call (fun _ => rfl) fun ok => ?_)
  cases ok with
  | false => trivial
  | true =>
    refine meets_bind.mpr (meets_ask.mpr ⟨trivial, fun a ha => ?_⟩)
    have hserve : a = serve url tag := ha
    cases a with
    | none => trivial
    | some response =>
      have hk : k ++ (Poll.offer? ⟨.get url tag, some response⟩).toList = k := append_nil k
      show post response s (k ++ (Poll.offer? ⟨.get url tag, some response⟩).toList)
      rw [hk]
      exact h response hserve.symm

theorem does_pageItems {response : Response} {page : List RestEventItem}
    {post : List RestEventItem → IngressStore → List IngressEvent → Prop}
    (hpage : Carries response page) (h : post page s k) :
    Does serve post (EventPoller.pageItems response) s k := by
  unfold EventPoller.pageItems
  split_ifs
  · trivial
  cases hbody : response.body with
  | none => trivial
  | some body =>
    have hitems : body.items = some (page.map some) := hpage body hbody
    dsimp only
    split_ifs
    · trivial
    rw [hitems]
    have hsome : (page.map some).filterMap id = page := by
      rw [filterMap_map]
      exact filterMap_some
    show post ((page.map some).filterMap id) s k
    rw [hsome]
    exact h

end

/-! ## the boundary -/

theorem reached_iff {last : Option Nat} {item : RestEventItem} :
    reached last item = true ↔ ∃ i ∈ rawId item, ∃ b ∈ last, i ≤ b := by
  simp [reached, Option.any_eq_true]

theorem raise_spec (highest : Option Nat) (id : Nat) :
    ∃ b, raise highest id = some b ∧ id ≤ b ∧ (∀ h ∈ highest, h ≤ b) ∧ (b = id ∨ b ∈ highest) := by
  cases highest with
  | none => exact ⟨id, rfl, le_rfl, nofun, .inl rfl⟩
  | some h =>
    refine ⟨max h id, rfl, le_max_right _ _, ?_, ?_⟩
    · rintro _ ⟨⟩
      exact le_max_left _ _
    · obtain hmax | hmax := max_choice h id
      · exact .inr (by simp [hmax])
      · exact .inl hmax

theorem foldl_raise (ids : List Nat) (highest : Option Nat) :
    (∀ i ∈ ids, ∃ b ∈ ids.foldl raise highest, i ≤ b) ∧
      (∀ h ∈ highest, ∃ b ∈ ids.foldl raise highest, h ≤ b) ∧
      (∀ b ∈ ids.foldl raise highest, b ∈ ids ∨ b ∈ highest) := by
  induction ids generalizing highest with
  | nil => exact ⟨nofun, fun h hh => ⟨h, hh, le_rfl⟩, fun b hb => .inr hb⟩
  | cons id _ ih =>
    obtain ⟨b, hb, hid, hle, hcases⟩ := raise_spec highest id
    obtain ⟨hids, hkeep, hmem⟩ := ih (raise highest id)
    obtain ⟨c, hc, hbc⟩ := hkeep b hb
    refine ⟨?_, ?_, ?_⟩
    · intro i hi
      obtain rfl | hi := mem_cons.mp hi
      · exact ⟨c, hc, hid.trans hbc⟩
      · exact hids i hi
    · intro h hh
      exact ⟨c, hc, (hle h hh).trans hbc⟩
    · intro x hx
      obtain hx | hx := hmem x hx
      · exact .inl (mem_cons_of_mem id hx)
      · obtain rfl : b = x := by
          rw [hb] at hx
          exact Option.some.inj hx
        obtain rfl | hb' := hcases
        · exact .inl mem_cons_self
        · exact .inr hb'

/-! ## pages -/

section
variable {poller : EventPoller} {target : PollTarget} {now least : Nat}
  {serve : String → Option String → Option Response} {s : IngressStore} {k : List IngressEvent}

theorem reached_of_page {last : Option Nat} {page rest : List RestEventItem}
    (hfeed : Feed least (page ++ rest)) (hne : page ≠ []) (hpage : ∀ x ∈ page, reached last x = true)
    {x : RestEventItem} (hx : x ∈ rest) : reached last x = true := by
  obtain ⟨y, hy⟩ := exists_mem_of_ne_nil page hne
  obtain ⟨j, hj, b, hb, hle⟩ := reached_iff.mp (hpage y hy)
  obtain ⟨i, hi, -⟩ := hfeed.numbered x (mem_append_right page hx)
  have hlt : i < j := (pairwise_append.mp hfeed.newestFirst).2.2 y hy x hx j hj i hi
  exact reached_iff.mpr ⟨i, hi, b, hb, hlt.le.trans hle⟩

theorem Feed.append_right {page rest : List RestEventItem} (h : Feed least (page ++ rest)) :
    Feed least rest :=
  ⟨fun x hx => h.numbered x (mem_append_right page hx),
    (pairwise_append.mp h.newestFirst).2.1⟩

/-- what the pages of a poll yield: the first ones, up to the boundary -/
structure Gathered (last : Option Nat) (left : Nat) (pages : List (List RestEventItem))
    (gathered : List RestEventItem) : Prop where
  split : ∃ rest, pages.flatten = gathered ++ rest
  first : ∀ page ∈ pages.head?, page ⊆ gathered
  fresh : ∀ x ∈ (pages.take (left + 1)).flatten, reached last x = false → x ∈ gathered

theorem followPages_does {last : Option Nat} (pages : List (List RestEventItem)) (left : Nat)
    (response : Response) (items : List RestEventItem) (highest : Option Nat)
    (hlists : Lists poller target serve pages response) (hfeed : Feed least pages.flatten) :
    Does serve (fun res s' k' => s' = s ∧ k' = k ∧ ∃ gathered, Gathered last left pages gathered ∧
        res = (items ++ gathered, highestRawId highest gathered))
      (poller.followPages target last left response items highest) s k := by
  induction left generalizing pages response items highest with
  | zero =>
    cases pages with
    | nil => exact hlists.elim
    | cons page rest =>
      refine meets_bind.mpr (does_pageItems hlists.1 ?_)
      have hone : Gathered last 0 (page :: rest) page :=
        ⟨⟨rest.flatten, rfl⟩, by rintro _ ⟨⟩; exact List.Subset.refl _, fun x hx _ => by simpa using hx⟩
      split_ifs <;> exact ⟨rfl, rfl, page, hone, rfl⟩
  | succ _ ih =>
    cases pages with
    | nil => exact hlists.elim
    | cons page rest =>
      obtain ⟨hpage, hnext⟩ := hlists
      unfold EventPoller.followPages
      refine meets_bind.mpr (does_pageItems hpage ?_)
      have hfirst : ∀ p ∈ (page :: rest).head?, p ⊆ page := by
        rintro _ ⟨⟩
        exact List.Subset.refl _
      split_ifs with hstop
      · -- the boundary covers the page, so it covers all that follows
        have hreached : page ≠ [] ∧ ∀ x ∈ page, reached last x = true := by simpa using hstop
        refine ⟨rfl, rfl, page, ⟨⟨rest.flatten, rfl⟩, hfirst, fun x hx hfresh => ?_⟩, rfl⟩
        rw [take_succ_cons, flatten_cons, mem_append] at hx
        refine hx.resolve_right fun hrest => ?_
        have hx' : x ∈ rest.flatten := by
          obtain ⟨p, hp, hxp⟩ := mem_flatten.mp hrest
          exact mem_flatten.mpr ⟨p, mem_of_mem_take hp, hxp⟩
        rw [reached_of_page hfeed hreached.1 hreached.2 hx'] at hfresh
        cases hfresh
      · cases hurl : poller.nextUrl target response.link with
        | none =>
          rw [hurl] at hnext
          obtain rfl : rest = [] := hnext
          exact ⟨rfl, rfl, page, ⟨⟨[], rfl⟩, hfirst, fun x hx _ => by simpa using hx⟩, rfl⟩
        | some =>
          rw [hurl] at hnext
          refine meets_bind.mpr (does_fetch fun response' hresponse' => ?_)
          split_ifs
          · refine (ih rest response' (items ++ page) (highestRawId highest page)
              (hnext response' hresponse') hfeed.append_right).mono ?_ fun _ _ _ h => h
            rintro res s' k' ⟨hs', hk', gathered, hg, rfl⟩
            refine ⟨hs', hk', page ++ gathered, ⟨?_, ?_, ?_⟩, ?_⟩
            · obtain ⟨more, hmore⟩ := hg.split
              exact ⟨more, by rw [flatten_cons, hmore, append_assoc]⟩
            · rintro _ ⟨⟩
              exact subset_append_left _ _
            · intro x hx hfresh
              rw [take_succ_cons, flatten_cons, mem_append] at hx
              exact mem_append.mpr (hx.imp id fun hx => hg.fresh x hx hfresh)
            · rw [append_assoc, highestRawId, highestRawId, highestRawId, filterMap_append,
                foldl_append]
          · trivial

/-! ## delivery keys -/

theorem not_mem_of_parseU64 {text : String} {id : Nat} (h : parseU64 text = some id) :
    '|' ∉ text.toList := by
  intro hmem
  unfold parseU64 at h
  split at h
  next rest hplus =>
    rw [hplus] at hmem
    have hrest : '|' ∈ rest := by simpa using hmem
    have hdigits : rest.all Char.isDigit = true := by
      by_contra hnot
      simp [hnot] at h
    have hbar := all_eq_true.mp hdigits _ hrest
    exact absurd hbar (by decide)
  next chars hplus =>
    have hdigits : text.toList.all Char.isDigit = true := by
      by_contra hnot
      simp [hnot] at h
    have hbar := all_eq_true.mp hdigits _ hmem
    exact absurd hbar (by decide)

theorem takeWhile_bar {id rest : List Char} (h : '|' ∉ id) :
    (id ++ '|' :: rest).takeWhile (· ≠ '|') = id := by
  rw [takeWhile_append_of_pos]
  · simp
  · intro c hc
    have hne : c ≠ '|' := fun heq => h (heq ▸ hc)
    simpa using hne

theorem deliveryKey_toList (id repo eventType : String) (headSha : Option String) :
    (IngressStore.deliveryKey id repo eventType headSha).toList = id.toList ++ '|' ::
      (repo.toList ++ '|' :: (eventType.toList ++ '|' :: (headSha.getD "").toList)) := by
  have hbar : "|".toList = ['|'] := rfl
  simp [IngressStore.deliveryKey]

theorem itemDerived_key {item : RestEventItem} {derived : DerivedItem}
    (h : itemDerived item target = some derived) : ∃ id rest, item.id.bind valueToId = some id ∧
      derived.deliveryKey.toList = id.toList ++ '|' :: rest := by
  unfold itemDerived at h
  simp only [Option.bind_eq_bind, Option.bind_eq_some_iff] at h
  obtain ⟨eventType, -, id, hid, number, -, hderived⟩ := h
  have hkey : derived.deliveryKey = IngressStore.deliveryKey id target.repo eventType derived.headSha := by
    cases hderived
    rfl
  exact ⟨id, _, Option.bind_eq_some_iff.mpr hid, hkey ▸ deliveryKey_toList _ _ _ _⟩

theorem rawId_eq_of_key {x y : RestEventItem} {d e : DerivedItem} {i j : Nat}
    (hx : itemDerived x target = some d) (hy : itemDerived y target = some e)
    (hi : rawId x = some i) (hj : rawId y = some j) (hkey : d.deliveryKey = e.deliveryKey) : i = j := by
  obtain ⟨id, rest, hid, htext⟩ := itemDerived_key hx
  obtain ⟨id', rest', hid', htext'⟩ := itemDerived_key hy
  rw [rawId, hid] at hi
  rw [rawId, hid'] at hj
  have hlist : id.toList ++ '|' :: rest = id'.toList ++ '|' :: rest' := by
    rw [← htext, ← htext', hkey]
  have hsame := congrArg (takeWhile (· ≠ '|')) hlist
  rw [takeWhile_bar (not_mem_of_parseU64 hi), takeWhile_bar (not_mem_of_parseU64 hj)] at hsame
  have hid_eq : id = id' := String.toList_inj.mp hsame
  subst hid_eq
  exact Option.some.inj (hi.symm.trans hj)

/-! ## the dedup table -/

theorem recordDelivery_endpoints (key : String) :
    (s.recordDelivery key now).2.endpoints = s.endpoints := by
  unfold IngressStore.recordDelivery
  split <;> rfl

theorem recordDelivery_known {key key' : String}
    (h : (s.recordDelivery key now).2.deliveries key' ≠ none) :
    key' = key ∨ s.deliveries key' ≠ none := by
  have hprune : s.prune now key' ≠ none → s.deliveries key' ≠ none := by
    intro hp hnone
    exact hp (by rw [IngressStore.prune, hnone]; rfl)
  unfold IngressStore.recordDelivery at h
  split at h
  · exact .inr (hprune h)
  · by_cases hkey : key' = key
    · exact .inl hkey
    · refine .inr (hprune ?_)
      have hupdate : Function.update (s.prune now) key (some now) key' ≠ none := h
      rwa [Function.update_of_ne hkey] at hupdate

theorem recordDelivery_new {key : String} (h : s.deliveries key = none) :
    (s.recordDelivery key now).1 = true := by
  have hprune : s.prune now key = none := by
    rw [IngressStore.prune, h]
    rfl
  unfold IngressStore.recordDelivery
  rw [hprune]

/-- the table has no key of these items -/
def Unknown (s : IngressStore) (target : PollTarget) (items : List RestEventItem) : Prop :=
  ∀ item ∈ items, ∀ derived ∈ itemDerived item target, s.deliveries derived.deliveryKey = none

/-- the keys are all different -/
def Apart (target : PollTarget) (items : List RestEventItem) : Prop :=
  items.Pairwise fun x y => ∀ d ∈ itemDerived x target, ∀ e ∈ itemDerived y target,
    d.deliveryKey ≠ e.deliveryKey

theorem Feed.apart {feed : List RestEventItem} (h : Feed least feed) : Apart target feed := by
  refine List.Pairwise.imp_of_mem ?_ h.newestFirst
  intro x y hx hy hlt d hd e he hkey
  obtain ⟨i, hi, -⟩ := h.numbered x hx
  obtain ⟨j, hj, -⟩ := h.numbered y hy
  have hne : j < i := hlt i hi j hj
  exact hne.ne (rawId_eq_of_key hd he hi hj hkey).symm

def events (target : PollTarget) (now : Nat) (items : List RestEventItem) : List IngressEvent :=
  items.filterMap fun item => (itemDerived item target).map (·.event target now)

theorem offer_does {event : IngressEvent} {outcome : PollOutcome} :
    Does serve (fun _ s' k' => s' = s ∧ k' = k ++ [event]) (poller.offer event now outcome) s k := by
  have hmirror : Does serve (fun _ s' k' => s' = s ∧ k' = k) (poller.mirror event) s k := by
    unfold EventPoller.mirror
    split_ifs
    · exact does_call (q := .intakePut event) (fun _ => rfl) fun _ => ⟨rfl, rfl⟩
    · exact ⟨rfl, rfl⟩
  refine meets_bind.mpr (hmirror.mono ?_ fun _ _ _ h => h)
  rintro mirrored s' k' ⟨rfl, rfl⟩
  exact meets_bind.mpr (meets_ask.mpr ⟨trivial, fun _ _ => ⟨rfl, rfl⟩⟩)

theorem processItem_does {last : Option Nat} {item : RestEventItem} {outcome : PollOutcome}
    (hnew : reached last item = false → Unknown s target [item]) :
    Does serve (fun _ s' k' => s'.endpoints = s.endpoints ∧
        k' = k ++ events target now ([item].filter (!reached last ·)) ∧
        ∀ key, s'.deliveries key ≠ none → s.deliveries key ≠ none ∨
          ∃ d ∈ itemDerived item target, d.deliveryKey = key)
      (poller.processItem target now last item outcome) s k := by
  have hskip : events target now ([item].filter (!reached last ·)) = [] →
      k = k ++ events target now ([item].filter (!reached last ·)) := by
    intro hnone
    rw [hnone, append_nil]
  unfold EventPoller.processItem
  cases hderived : itemDerived item target with
  | none =>
    refine ⟨rfl, hskip ?_, fun key h => .inl h⟩
    cases hr : reached last item <;> simp [events, hr, hderived]
  | some derived =>
    dsimp only
    split_ifs with hreached
    · exact ⟨rfl, hskip (by simp [events, hreached]), fun key h => .inl h⟩
    have hreached' : reached last item = false := by simpa using hreached
    have hnone := hnew hreached' item mem_cons_self derived hderived
    have hevents : events target now ([item].filter (!reached last ·)) = [derived.event target now] := by
      simp [events, hreached', hderived]
    refine meets_bind.mpr (does_recordDelivery ?_)
    rw [recordDelivery_new hnone]
    simp only [if_true]
    refine offer_does.mono ?_ fun _ _ _ h => h
    rintro _ s' k' ⟨rfl, rfl⟩
    refine ⟨recordDelivery_endpoints _, by rw [hevents], fun key hkey => ?_⟩
    exact (recordDelivery_known hkey).symm.imp id fun heq => ⟨derived, rfl, heq.symm⟩

theorem processItems_does {last : Option Nat} (items : List RestEventItem) (outcome : PollOutcome)
    (hnew : Unknown s target (items.filter (!reached last ·))) (hapart : Apart target items) :
    Does serve (fun _ s' k' => s'.endpoints = s.endpoints ∧
        k' = k ++ events target now (items.filter (!reached last ·)) ∧
        ∀ key, s'.deliveries key ≠ none → s.deliveries key ≠ none ∨
          ∃ item ∈ items, ∃ d ∈ itemDerived item target, d.deliveryKey = key)
      (poller.processItems target now last items outcome) s k := by
  induction items generalizing s k outcome with
  | nil => exact ⟨rfl, (append_nil k).symm, fun key h => .inl h⟩
  | cons item items ih =>
    obtain ⟨hhead, htail⟩ := pairwise_cons.mp hapart
    refine meets_bind.mpr ((processItem_does fun hr x hx => ?_).mono ?_ fun _ _ _ h => h)
    · obtain rfl := mem_singleton.mp hx
      exact hnew x (mem_filter.mpr ⟨mem_cons_self, by simp [hr]⟩)
    · rintro outcome' s1 k1 ⟨hrows1, rfl, hknown1⟩
      have hnew1 : Unknown s1 target (items.filter (!reached last ·)) := by
        intro x hx e he
        by_contra hne
        obtain ⟨hx', hr⟩ := mem_filter.mp hx
        obtain hold | ⟨d, hd, hkey⟩ := hknown1 _ hne
        · exact hold (hnew x (mem_filter.mpr ⟨mem_cons_of_mem item hx', hr⟩) e he)
        · exact hhead x hx' d hd e he hkey
      refine (ih outcome' hnew1 htail).mono ?_ fun _ _ _ h => h
      rintro _ s2 k2 ⟨hrows2, rfl, hknown2⟩
      refine ⟨hrows2.trans hrows1, ?_, fun key hkey => ?_⟩
      · rw [append_assoc, ← singleton_append (l := items), filter_append, events, events,
          events, filterMap_append]
      · obtain hkey | ⟨x, hx, d, hd, heq⟩ := hknown2 key hkey
        · exact (hknown1 key hkey).imp id fun ⟨d, hd, heq⟩ => ⟨item, mem_cons_self, d, hd, heq⟩
        · exact .inr ⟨x, mem_cons_of_mem item hx, d, hd, heq⟩

/-! ## the endpoint row -/

variable (endpoint : String) (etag : Option String)

theorem upsert_endpoints (f : EndpointRow → EndpointRow) :
    (s.upsert endpoint f).endpoints endpoint = some (f ((s.endpoints endpoint).getD {})) :=
  Function.update_self ..

theorem markBaselined_isBaselined : (s.markBaselined endpoint).isBaselined endpoint = true := by
  rw [IngressStore.isBaselined, IngressStore.markBaselined, upsert_endpoints]
  rfl

theorem markBaselined_maxRawId :
    (s.markBaselined endpoint).maxRawId endpoint = s.maxRawId endpoint := by
  rw [IngressStore.maxRawId, IngressStore.markBaselined, upsert_endpoints, IngressStore.maxRawId]
  cases s.endpoints endpoint <;> rfl

theorem recordConditional_isBaselined (pollAfter : Nat) (notModified : Bool) :
    (s.recordConditional endpoint etag pollAfter notModified).isBaselined endpoint =
      s.isBaselined endpoint := by
  rw [IngressStore.isBaselined, IngressStore.recordConditional, upsert_endpoints,
    IngressStore.isBaselined]
  cases s.endpoints endpoint <;> rfl

theorem recordConditional_maxRawId (pollAfter : Nat) (notModified : Bool) :
    (s.recordConditional endpoint etag pollAfter notModified).maxRawId endpoint =
      s.maxRawId endpoint := by
  rw [IngressStore.maxRawId, IngressStore.recordConditional, upsert_endpoints, IngressStore.maxRawId]
  cases s.endpoints endpoint <;> rfl

theorem recordConditional_etagFor (pollAfter : Nat) (notModified : Bool) :
    (s.recordConditional endpoint etag pollAfter notModified).etagFor endpoint = etag := by
  rw [IngressStore.etagFor, IngressStore.recordConditional, upsert_endpoints]
  rfl

theorem recordMaxRawId_isBaselined (id : Nat) :
    (s.recordMaxRawId endpoint id).isBaselined endpoint = s.isBaselined endpoint := by
  rw [IngressStore.isBaselined, IngressStore.recordMaxRawId, upsert_endpoints, IngressStore.isBaselined]
  cases s.endpoints endpoint <;> rfl

theorem recordMaxRawId_maxRawId {id : Nat} (hpos : 0 < id) (hmax : id ≤ i64Max) :
    (s.recordMaxRawId endpoint id).maxRawId endpoint = raise (s.maxRawId endpoint) id := by
  rw [IngressStore.maxRawId, IngressStore.recordMaxRawId, upsert_endpoints, Nat.min_eq_left hmax,
    IngressStore.maxRawId]
  have hsome : ∀ n : Nat, (some (max n id)).filter (0 < ·) = raise ((some n).filter (0 < ·)) id := by
    intro n
    have hlt : 0 < max n id := hpos.trans_le (le_max_right n id)
    obtain rfl | hn := Nat.eq_zero_or_pos n
    · simp [raise, Option.filter_some, hpos]
    · simp [raise, Option.filter_some, hn]
  cases s.endpoints endpoint with
  | none => exact hsome 0
  | some row => exact hsome row.lastSeenRawId

/-- ids that a feed can have -/
def Ids (ids : List Nat) : Prop := ∀ id ∈ ids, 0 < id ∧ id ≤ i64Max

theorem Feed.ids {feed items : List RestEventItem} (h : Feed 1 feed) (hsub : items ⊆ feed) :
    Ids (items.filterMap rawId) := by
  intro id hid
  obtain ⟨item, hitem, hraw⟩ := mem_filterMap.mp hid
  obtain ⟨id', hraw', hpos, hmax⟩ := h.numbered item (hsub hitem)
  obtain rfl : id = id' := Option.some.inj (hraw.symm.trans hraw')
  exact ⟨hpos, hmax⟩

theorem recordAll_does {endpoint : String} (ids : List Nat) (hids : Ids ids) :
    Does serve (fun _ s' k' => k' = k ∧ s'.deliveries = s.deliveries ∧
        s'.maxRawId endpoint = ids.foldl raise (s.maxRawId endpoint))
      (forEach ids fun id => writeStore (·.recordMaxRawId endpoint id)) s k := by
  induction ids generalizing s with
  | nil => exact ⟨rfl, rfl, rfl⟩
  | cons id _ ih =>
    obtain ⟨hpos, hmax⟩ := hids id mem_cons_self
    refine meets_bind.mpr (does_writeStore ?_)
    refine (ih fun id' hid' => hids id' (mem_cons_of_mem id hid')).mono ?_ fun _ _ _ h => h
    rintro _ s' k' ⟨hk', hdeliveries, hboundary⟩
    rw [recordMaxRawId_maxRawId endpoint hpos hmax] at hboundary
    exact ⟨hk', hdeliveries, hboundary⟩

theorem raise_foldl (ids : List Nat) (highest : Option Nat) {b : Nat}
    (hb : ids.foldl raise highest = some b) : raise highest b = some b := by
  obtain ⟨-, hkeep, -⟩ := foldl_raise ids highest
  cases highest with
  | none => rfl
  | some h =>
    obtain ⟨c, hc, hle⟩ := hkeep h rfl
    rw [hb] at hc
    obtain rfl := Option.some.inj hc
    exact congrArg some (max_eq_right hle)

end

end Ingress
