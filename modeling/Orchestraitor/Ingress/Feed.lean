import Orchestraitor.Ingress.PollSteps

/-!
# What a feed delivers

A log of successful polls of one feed that lists its events newest first.  The first poll only registers
what it sees; every later one offers the tracked events that no earlier poll has seen, each of them, and
nothing else (`History.offered_eq`).  The raw-id boundary carries this: after a poll it covers the items
of every feed seen so far and no others, so neither the page at which a poll stops nor the age of a
delivery key matters.
-/

namespace Ingress
open Base CallState List IngressStore

section
variable {poller : EventPoller} {target : PollTarget} {now least : Nat}
  {serve : String → Option String → Option Response} {s : IngressStore} {k : List IngressEvent}

/-! ## what a poll keeps -/

/-- what the store knows of the feed: its boundary covers the items `seen`, and is one of them; it has no
delivery key of another item -/
structure Known (target : PollTarget) (version : String → List RestEventItem) (started : Bool)
    (seen : List RestEventItem) (s : IngressStore) : Prop where
  baselined : s.isBaselined target.key = started
  covers : ∀ x ∈ seen, reached (s.maxRawId target.key) x = true
  bound : ∀ b ∈ s.maxRawId target.key, (0 < b ∧ b ≤ i64Max) ∧ ∃ x ∈ seen, rawId x = some b
  delivered : ∀ x, ∀ d ∈ itemDerived x target, s.deliveries d.deliveryKey ≠ none →
    ∃ y ∈ seen, ∃ e ∈ itemDerived y target, e.deliveryKey = d.deliveryKey
  tagged : ∀ e ∈ s.etagFor target.key, started = true ∧ version e ⊆ seen

section
variable {version : String → List RestEventItem} {started : Bool} {seen feed : List RestEventItem}

theorem Known.reached_iff_seen (h : Known target version started seen s) (hgrows : Grows seen feed)
    {x : RestEventItem} (hx : x ∈ feed) : reached (s.maxRawId target.key) x = true ↔ x ∈ seen := by
  refine ⟨fun hreached => ?_, h.covers x⟩
  by_contra hnew
  obtain ⟨i, hi, b, hb, hle⟩ := reached_iff.mp hreached
  obtain ⟨-, y, hy, hyb⟩ := h.bound b hb
  exact absurd hle (Nat.not_le.mpr (hgrows x hx hnew y hy i hi b hyb))

variable {last : Option Nat} {pages : List (List RestEventItem)} {gathered : List RestEventItem}

theorem reached_of_gathered {left : Nat} (hfeed : Feed least pages.flatten)
    (hg : Gathered last left pages gathered) (hfirst : pages.flatten ≠ [] → pages.head? ≠ some [])
    {x : RestEventItem} (hx : x ∈ pages.flatten) : reached (highestRawId last gathered) x = true := by
  have hmem : ∀ y ∈ gathered, reached (highestRawId last gathered) y = true := by
    intro y hy
    obtain ⟨more, hmore⟩ := hg.split
    obtain ⟨i, hi, -⟩ := hfeed.numbered y (hmore ▸ mem_append_left more hy)
    obtain ⟨b, hb, hle⟩ := (foldl_raise (gathered.filterMap rawId) last).1 i
      (mem_filterMap.mpr ⟨y, hy, hi⟩)
    exact reached_iff.mpr ⟨i, hi, b, hb, hle⟩
  obtain ⟨more, hmore⟩ := hg.split
  have hx' : x ∈ gathered ++ more := hmore ▸ hx
  obtain hx' | hx' := mem_append.mp hx'
  · exact hmem x hx'
  have hne : gathered ≠ [] := by
    cases pages with
    | nil => cases hx
    | cons page =>
      have hpage : page ≠ [] := fun h => hfirst (ne_nil_of_mem hx) (by rw [h]; rfl)
      obtain ⟨y, hy⟩ := exists_mem_of_ne_nil page hpage
      exact ne_nil_of_mem (hg.first page rfl hy)
  exact reached_of_page (hmore ▸ hfeed) hne hmem hx'

theorem Known.advance {left : Nat} {s' : IngressStore} {etag : Option String}
    (h : Known target version started seen s) (hlast : last = s.maxRawId target.key)
    (hfeed : Feed 1 pages.flatten) (hg : Gathered last left pages gathered)
    (hfirst : pages.flatten ≠ [] → pages.head? ≠ some [])
    (hbaselined : s'.isBaselined target.key = true)
    (hboundary : s'.maxRawId target.key = highestRawId last gathered)
    (hdelivered : ∀ key, s'.deliveries key ≠ none →
      s.deliveries key ≠ none ∨ ∃ item ∈ gathered, ∃ d ∈ itemDerived item target, d.deliveryKey = key)
    (hetag : s'.etagFor target.key = etag)
    (hversion : ∀ e ∈ etag, version e = pages.flatten) :
    Known target version true (seen ++ pages.flatten) s' := by
  have hsub : gathered ⊆ pages.flatten := by
    obtain ⟨more, hmore⟩ := hg.split
    rw [hmore]
    exact subset_append_left _ _
  obtain ⟨-, hkeep, hmem⟩ := foldl_raise (gathered.filterMap rawId) last
  refine ⟨hbaselined, ?_, ?_, ?_, ?_⟩
  · intro x hx
    rw [hboundary]
    obtain hx | hx := mem_append.mp hx
    · obtain ⟨i, hi, b, hb, hle⟩ := reached_iff.mp (h.covers x hx)
      obtain ⟨c, hc, hbc⟩ := hkeep b (hlast ▸ hb)
      exact reached_iff.mpr ⟨i, hi, c, hc, hle.trans hbc⟩
    · exact reached_of_gathered hfeed hg hfirst hx
  · intro b hb
    rw [hboundary] at hb
    obtain hb | hb := hmem b hb
    · obtain ⟨x, hx, hraw⟩ := mem_filterMap.mp hb
      exact ⟨hfeed.ids hsub b hb, x, mem_append_right seen (hsub hx), hraw⟩
    · obtain ⟨hid, x, hx, hraw⟩ := h.bound b (hlast ▸ hb)
      exact ⟨hid, x, mem_append_left _ hx, hraw⟩
  · intro x d hd hkey
    obtain hkey | ⟨y, hy, e, he, heq⟩ := hdelivered _ hkey
    · obtain ⟨y, hy, e, he, heq⟩ := h.delivered x d hd hkey
      exact ⟨y, mem_append_left _ hy, e, he, heq⟩
    · exact ⟨y, mem_append_right seen (hsub hy), e, he, heq⟩
  · intro e he
    rw [hetag] at he
    exact ⟨rfl, hversion e he ▸ subset_append_right _ _⟩

/-! ## one poll -/

theorem baseline_does (hids : Ids (gathered.filterMap rawId)) :
    Does serve (fun _ s' k' => k' = k ∧ s'.isBaselined target.key = true ∧
        s'.maxRawId target.key = highestRawId (s.maxRawId target.key) gathered ∧
        ∀ key, s'.deliveries key ≠ none → s.deliveries key ≠ none ∨
          ∃ item ∈ gathered, ∃ d ∈ itemDerived item target, d.deliveryKey = key)
      (EventPoller.baseline target now gathered) s k := by
  have hkeys : ∀ keys : List String, Does serve (fun _ s' k' => k' = k ∧ s'.endpoints = s.endpoints ∧
        ∀ key, s'.deliveries key ≠ none → s.deliveries key ≠ none ∨ key ∈ keys)
      (forEach keys fun key => do let _ ← recordDelivery key now) s k := by
    intro keys
    induction keys generalizing s with
    | nil => exact ⟨rfl, rfl, fun key h => .inl h⟩
    | cons key _ ih =>
      refine meets_bind.mpr (meets_bind.mpr (does_recordDelivery (meets_pure.mpr ?_)))
      refine Meets.mono ih ?_ fun _ _ _ h => h
      rintro _ s' k' ⟨hk', hrows, hknown⟩
      refine ⟨hk', hrows.trans (recordDelivery_endpoints key), fun key' hkey' => ?_⟩
      obtain hkey' | hkey' := hknown key' hkey'
      · obtain rfl | hkey' := recordDelivery_known hkey'
        · exact .inr mem_cons_self
        · exact .inl hkey'
      · exact .inr (mem_cons_of_mem key hkey')
  refine meets_bind.mpr ((hkeys _).mono ?_ fun _ _ _ h => h)
  rintro _ s1 k1 ⟨rfl, hrows1, hknown1⟩
  have hlast : s1.maxRawId target.key = s.maxRawId target.key := by
    rw [maxRawId, hrows1, maxRawId]
  refine meets_bind.mpr ((recordAll_does _ hids).mono ?_ fun _ _ _ h => h)
  rintro _ s2 k2 ⟨rfl, hdeliveries2, hboundary2⟩
  refine does_writeStore ⟨rfl, markBaselined_isBaselined _, ?_, fun key hkey => ?_⟩
  · rw [markBaselined_maxRawId, hboundary2, hlast, highestRawId]
  · have hkey1 : s1.deliveries key ≠ none := hdeliveries2 ▸ hkey
    refine (hknown1 key hkey1).imp id fun hmem => ?_
    obtain ⟨item, hitem, hderived⟩ := mem_filterMap.mp hmem
    obtain ⟨d, hd, heq⟩ := Option.map_eq_some_iff.mp hderived
    exact ⟨item, hitem, d, hd, heq⟩

/-- what a poll has to offer: from the second one on, the events of the items not seen before -/
def newEvents (started : Bool) (target : PollTarget) (now : Nat) (seen feed : List RestEventItem) :
    List IngressEvent :=
  if started then events target now (feed.filter (· ∉ seen)) else []

theorem filter_gathered (hg : Gathered last (maxPagesPerPoll - 1) pages gathered)
    (hapart : pages.flatten.Nodup) (hseen : ∀ x ∈ pages.flatten, reached last x = true ↔ x ∈ seen)
    (hfits : ∀ x ∈ pages.flatten, x ∉ seen → x ∈ (pages.take maxPagesPerPoll).flatten) :
    gathered.filter (!reached last ·) = pages.flatten.filter (· ∉ seen) := by
  obtain ⟨more, hmore⟩ := hg.split
  rw [hmore] at hseen hapart hfits ⊢
  have hrest : more.filter (· ∉ seen) = [] := by
    refine filter_eq_nil_iff.mpr fun x hx => ?_
    have hx' : x ∈ gathered ++ more := mem_append_right gathered hx
    by_contra hnot
    have hnew : x ∉ seen := by simpa using hnot
    have hfresh : reached last x = false := by
      by_contra htrue
      exact hnew ((hseen x hx').mp (by simpa using htrue))
    have hmem := hg.fresh x (hfits x hx' hnew) hfresh
    exact (nodup_append.mp hapart).2.2 x hmem x hx rfl
  rw [filter_append, hrest, append_nil]
  refine filter_congr fun x hx => ?_
  have hiff := hseen x (mem_append_left more hx)
  by_cases hx' : x ∈ seen
  · simp [hx', hiff.mpr hx']
  · have hfalse : reached last x = false := by
      by_contra htrue
      exact hx' (hiff.mp (by simpa using htrue))
    simp [hx', hfalse]

theorem Feed.nodup (h : Feed least feed) : feed.Nodup := by
  refine List.Pairwise.imp_of_mem ?_ h.newestFirst
  rintro x y hx - hlt rfl
  obtain ⟨i, hi, -⟩ := h.numbered x hx
  exact lt_irrefl i (hlt i hi i hi)

theorem pollChanged_does {p : Poll} {response : Response} {pollAfter : Nat}
    (h : Known target version started seen s) (hsees : p.Sees poller target version)
    (hfeed : Feed 1 p.feed) (hgrows : Grows seen p.feed)
    (hfits : started = true → ∀ x ∈ p.feed, x ∉ seen → x ∈ (p.pages.take maxPagesPerPoll).flatten)
    (hlists : Lists poller target p.serve p.pages response)
    (htagged : ∀ e ∈ response.etag, version e = p.feed) :
    Does p.serve (fun _ s' k' => Known target version true (seen ++ p.feed) s' ∧
        k' = k ++ newEvents started target now seen p.feed)
      (poller.pollChanged target now response pollAfter) s k := by
  have hflat := hsees.pages
  have hfirst := hsees.first
  rw [← hflat] at hfeed hgrows hfits htagged hfirst ⊢
  refine meets_bind.mpr (does_readStore (meets_bind.mpr (does_readStore (meets_bind.mpr ?_))))
  refine (followPages_does p.pages _ response [] _ hlists hfeed).mono ?_ fun _ _ _ h => h
  rintro _ s1 k1 ⟨rfl, rfl, gathered, hg, rfl⟩
  have hsub : gathered ⊆ p.pages.flatten := by
    obtain ⟨more, hmore⟩ := hg.split
    rw [hmore]
    exact subset_append_left _ _
  rw [h.baselined]
  cases started with
  | false =>
    refine meets_bind.mpr ((baseline_does (hfeed.ids hsub)).mono ?_ fun _ _ _ h => h)
    rintro _ s2 k2 ⟨rfl, hbaselined, hboundary, hdelivered⟩
    refine meets_bind.mpr (does_recordConditional ⟨?_, (append_nil _).symm⟩)
    exact h.advance rfl hfeed hg hfirst ((recordConditional_isBaselined ..).trans hbaselined)
      ((recordConditional_maxRawId ..).trans hboundary) hdelivered (recordConditional_etagFor ..) htagged
  | true =>
    have hseen : ∀ x ∈ p.pages.flatten, reached (s1.maxRawId target.key) x = true ↔ x ∈ seen :=
      fun x hx => h.reached_iff_seen hgrows hx
    have hfilter := filter_gathered hg hfeed.nodup hseen (hfits rfl)
    have hunknown : Unknown s1 target (gathered.filter (!reached (s1.maxRawId target.key) ·)) := by
      intro x hx d hd
      by_contra hne
      obtain ⟨y, hy, e, he, hkey⟩ := h.delivered x d hd hne
      obtain ⟨hx, hfresh⟩ := mem_filter.mp hx
      obtain ⟨i, hi, b, hb, hle⟩ := reached_iff.mp (h.covers y hy)
      obtain ⟨j, hj, -⟩ := hfeed.numbered x (hsub hx)
      obtain rfl : i = j := rawId_eq_of_key he hd hi hj hkey
      have hreached : reached (s1.maxRawId target.key) x = true := reached_iff.mpr ⟨i, hj, b, hb, hle⟩
      rw [hreached] at hfresh
      cases hfresh
    have hapart : Apart target gathered := by
      obtain ⟨more, hmore⟩ := hg.split
      exact (pairwise_append.mp (hmore ▸ (hfeed.apart : Apart target _))).1
    refine meets_bind.mpr ((processItems_does gathered _ hunknown hapart).mono ?_ fun _ _ _ h => h)
    rintro outcome s2 k2 ⟨hrows, rfl, hdelivered⟩
    have hlast : s2.maxRawId target.key = s1.maxRawId target.key := by
      rw [maxRawId, hrows, maxRawId]
    have hbaselined : s2.isBaselined target.key = true := by
      rw [isBaselined, hrows]
      exact h.baselined
    rw [hfilter]
    cases hhighest : highestRawId (s1.maxRawId target.key) gathered with
    | none =>
      refine meets_bind.mpr (does_recordConditional ⟨?_, rfl⟩)
      refine h.advance rfl hfeed hg hfirst ((recordConditional_isBaselined ..).trans hbaselined) ?_
        hdelivered (recordConditional_etagFor ..) htagged
      rw [recordConditional_maxRawId, hlast, hhighest]
      cases hold : s1.maxRawId target.key with
      | none => rfl
      | some b =>
        obtain ⟨c, hc, -⟩ := (foldl_raise (gathered.filterMap rawId) _).2.1 b hold
        rw [← highestRawId, hhighest] at hc
        cases hc
    | some id =>
      have hid : 0 < id ∧ id ≤ i64Max := by
        obtain hid | hid := (foldl_raise (gathered.filterMap rawId) _).2.2 id hhighest
        · exact hfeed.ids hsub id hid
        · exact (h.bound id hid).1
      refine meets_bind.mpr (does_writeStore (meets_bind.mpr (does_recordConditional ⟨?_, rfl⟩)))
      refine h.advance rfl hfeed hg hfirst ?_ ?_ hdelivered (recordConditional_etagFor ..) htagged
      · rw [recordConditional_isBaselined, recordMaxRawId_isBaselined, hbaselined]
      · rw [recordConditional_maxRawId, recordMaxRawId_maxRawId _ hid.1 hid.2, hlast, hhighest]
        exact raise_foldl _ _ hhighest

theorem pollOne_does {p : Poll} (h : Known target version started seen s)
    (hsees : p.Sees poller target version) (hfeed : Feed 1 p.feed) (hgrows : Grows seen p.feed)
    (hfits : started = true → ∀ x ∈ p.feed, x ∉ seen → x ∈ (p.pages.take maxPagesPerPoll).flatten) :
    Does p.serve (fun _ s' k' => Known target version true (seen ++ p.feed) s' ∧
        k' = k ++ newEvents started target now seen p.feed) (poller.pollOne target now) s k := by
  refine meets_bind.mpr (does_readStore (meets_bind.mpr (does_fetch fun response hresponse => ?_)))
  dsimp only
  split_ifs with hsame hlimited hfailed
  · -- nothing has come since the stored tag was given out
    obtain ⟨e, htag, hold⟩ := hsees.unchanged _ response hresponse hsame
    obtain ⟨rfl, hversion⟩ := h.tagged e htag
    have hsub : p.feed ⊆ seen := fun x hx => hversion (hold x hx)
    have hnone : newEvents true target now seen p.feed = [] := by
      have hfilter : p.feed.filter (· ∉ seen) = [] :=
        filter_eq_nil_iff.mpr fun x hx => by simpa using hsub hx
      rw [newEvents, hfilter]
      rfl
    refine meets_bind.mpr (does_recordConditional ⟨⟨?_, ?_, ?_, ?_, ?_⟩, ?_⟩)
    · exact (recordConditional_isBaselined ..).trans h.baselined
    · intro x hx
      rw [recordConditional_maxRawId]
      exact h.covers x ((mem_append.mp hx).elim id fun hx => hsub hx)
    · intro b hb
      rw [recordConditional_maxRawId] at hb
      obtain ⟨hid, x, hx, hraw⟩ := h.bound b hb
      exact ⟨hid, x, mem_append_left _ hx, hraw⟩
    · intro x d hd hkey
      obtain ⟨y, hy, hkey⟩ := h.delivered x d hd hkey
      exact ⟨y, mem_append_left _ hy, hkey⟩
    · intro e' he'
      rw [recordConditional_etagFor] at he'
      exact ⟨rfl, subset_append_of_subset_left _ (h.tagged e' he').2⟩
    · rw [hnone, append_nil]
  · refine meets_bind.mpr (does_recordConditional ?_)
    trivial
  · refine meets_bind.mpr (does_recordConditional ?_)
    trivial
  · have hsuccess : response.isSuccess = true := by simpa using hfailed
    exact pollChanged_does h hsees hfeed hgrows hfits (hsees.lists _ response hresponse hsuccess)
      (hsees.tagged _ response hresponse hsuccess)

end

end

/-! ## the log of the polls -/

theorem after_offering (serve : String → Option String → Option Response)
    (trace : List (Sigma Answer)) (k : List IngressEvent) :
    (offering serve).after k trace = k ++ trace.filterMap Poll.offer? := by
  induction trace generalizing k with
  | nil => exact (append_nil k).symm
  | cons e _ ih =>
    rw [Calls.Monitor.after_cons, ih]
    show (k ++ (Poll.offer? e).toList) ++ _ = _
    rw [append_assoc, filterMap_cons]
    cases Poll.offer? e <;> rfl

theorem Poll.run_spec {p : Poll} {poller : EventPoller} {target : PollTarget} {s s' : IngressStore}
    {outcome : PollOutcome} {post : PollOutcome → IngressStore → List IngressEvent → Prop}
    (h : Does p.serve post (poller.pollOne target p.now) s [])
    (hrun : p.run poller target s = (.ok outcome, s')) :
    post outcome s' (p.offered poller target s) := by
  have hkeeps := (Calls.Keeps.run (h := fun (_ : Unit) q => (p.answers q, ())) (R := fun _ _ => True)
    (fun _ _ q _ _ => ⟨by cases q <;> trivial, trivial⟩) h (s := ()) trivial).1
  rw [after_offering] at hkeeps
  have heval : ((poller.pollOne target p.now s).run (fun (_ : Unit) q => (p.answers q, ())) ()).1 =
      (.ok outcome, s') := by
    rw [← hrun, Poll.run]
    generalize poller.pollOne target p.now s = x
    induction x with
    | ret => rfl
    | call q f ih => exact ih (p.answers q)
  rw [heval] at hkeeps
  exact hkeeps

/-- nothing is known of the feed yet -/
structure Fresh (target : PollTarget) (s : IngressStore) : Prop where
  endpoint : s.endpoints target.key = none
  unknown : ∀ item, ∀ derived ∈ itemDerived item target, s.deliveries derived.deliveryKey = none

def seenItems (log : List (Poll × List IngressEvent)) : List RestEventItem := log.flatMap (·.1.feed)

/-- Successful polls of one feed from a fresh store on, each with what it offered.  The events have ids
from `least` on; what enters the feed is newer than all before it, and from the second poll on fits the
first ten pages. -/
inductive History (least : Nat) (poller : EventPoller) (target : PollTarget)
    (version : String → List RestEventItem) : List (Poll × List IngressEvent) → IngressStore → Prop
  | start {s : IngressStore} (h : Fresh target s) : History least poller target version [] s
  | poll {log : List (Poll × List IngressEvent)} {s s' : IngressStore} {p : Poll}
      {outcome : PollOutcome} (h : History least poller target version log s)
      (sees : p.Sees poller target version) (feed : Feed least p.feed)
      (grows : ∀ entry ∈ log, Grows entry.1.feed p.feed)
      (fits : log ≠ [] → ∀ x ∈ p.feed, x ∉ seenItems log →
        x ∈ (p.pages.take maxPagesPerPoll).flatten)
      (ok : p.run poller target s = (.ok outcome, s')) :
      History least poller target version (log ++ [(p, p.offered poller target s)]) s'

section
variable {poller : EventPoller} {target : PollTarget} {version : String → List RestEventItem}
  {least : Nat} {log : List (Poll × List IngressEvent)} {s : IngressStore}

theorem Fresh.known (h : Fresh target s) : Known target version false [] s := by
  refine ⟨?_, fun x hx => absurd hx not_mem_nil, ?_, ?_, ?_⟩
  · rw [isBaselined, h.endpoint]
    rfl
  · intro b hb
    rw [maxRawId, h.endpoint] at hb
    cases hb
  · exact fun x d hd hkey => absurd (h.unknown x d hd) hkey
  · intro e he
    rw [etagFor, h.endpoint] at he
    cases he

theorem seenItems_concat (entry : Poll × List IngressEvent) :
    seenItems (log ++ [entry]) = seenItems log ++ entry.1.feed := by
  simp [seenItems]

theorem grows_seenItems {feed : List RestEventItem} (h : ∀ entry ∈ log, Grows entry.1.feed feed) :
    Grows (seenItems log) feed := by
  intro x hx hnew y hy
  obtain ⟨entry, hentry, hy⟩ := mem_flatMap.mp hy
  exact h entry hentry x hx (fun hold => hnew (mem_flatMap.mpr ⟨entry, hentry, hold⟩)) y hy

theorem step_spec {s' : IngressStore} {p : Poll} {outcome : PollOutcome}
    (hknown : Known target version (!log.isEmpty) (seenItems log) s)
    (sees : p.Sees poller target version) (feed : Feed 1 p.feed)
    (grows : ∀ entry ∈ log, Grows entry.1.feed p.feed)
    (fits : log ≠ [] → ∀ x ∈ p.feed, x ∉ seenItems log → x ∈ (p.pages.take maxPagesPerPoll).flatten)
    (ok : p.run poller target s = (.ok outcome, s')) :
    Known target version true (seenItems log ++ p.feed) s' ∧
      p.offered poller target s = newEvents (!log.isEmpty) target p.now (seenItems log) p.feed := by
  have hfits : (!log.isEmpty) = true → ∀ x ∈ p.feed, x ∉ seenItems log →
      x ∈ (p.pages.take maxPagesPerPoll).flatten := fun hne => fits (by simpa using hne)
  have hspec := Poll.run_spec (pollOne_does hknown sees feed (grows_seenItems grows) hfits) ok
  rwa [nil_append] at hspec

theorem History.known (h : History 1 poller target version log s) :
    Known target version (!log.isEmpty) (seenItems log) s := by
  induction h with
  | start hfresh => exact hfresh.known
  | poll _ sees feed grows fits ok ih =>
    have hstep := (step_spec ih sees feed grows fits ok).1
    have hne : ∀ entry : Poll × List IngressEvent, ∀ log, (!(log ++ [entry]).isEmpty) = true := by
      intro _ log
      cases log <;> rfl
    rw [seenItems_concat, hne]
    exact hstep

/-- What each poll of a log offers: the first one nothing, every later one the tracked events of its feed
that no earlier poll has seen. -/
theorem History.offered_eq (h : History 1 poller target version log s)
    {before after : List (Poll × List IngressEvent)} {p : Poll} {offered : List IngressEvent}
    (hlog : log = before ++ (p, offered) :: after) :
    offered = newEvents (!before.isEmpty) target p.now (seenItems before) p.feed := by
  induction h generalizing after with
  | start =>
    have := congrArg length hlog
    simp at this
  | poll h sees feed grows fits ok ih =>
    obtain rfl | ⟨after', entry, rfl⟩ := eq_nil_or_concat after
    · obtain ⟨rfl, hlast⟩ := append_inj' hlog rfl
      obtain ⟨rfl, rfl⟩ := Prod.mk.inj (singleton_inj.mp hlast)
      exact (step_spec h.known sees feed grows fits ok).2
    · rw [concat_eq_append, ← cons_append, ← append_assoc] at hlog
      exact ih (append_inj_left' hlog rfl)

/-! ## exactly once -/

theorem Feed.inj {feed : List RestEventItem} (h : Feed least feed) {x y : RestEventItem}
    (hx : x ∈ feed) (hy : y ∈ feed) {id : Nat} (hi : rawId x = some id) (hj : rawId y = some id) :
    x = y := by
  have hsame : feed.Pairwise fun x y => rawId x = some id → rawId y = some id → x = y :=
    h.newestFirst.imp fun hlt hi hj => absurd (hlt id hi id hj) (lt_irrefl id)
  have : Std.Symm fun x y => rawId x = some id → rawId y = some id → x = y :=
    ⟨fun x y h hj hi => (h hi hj).symm⟩
  exact hsame.forall_of_forall (fun x _ _ _ => rfl) hx hy hi hj

theorem History.unique (h : History least poller target version log s) {x y : RestEventItem}
    (hx : x ∈ seenItems log) (hy : y ∈ seenItems log) {id : Nat} (hi : rawId x = some id)
    (hj : rawId y = some id) : x = y := by
  induction h with
  | start => cases hx
  | @poll log s s' p outcome h sees feed grows fits ok ih =>
    rw [seenItems_concat, mem_append] at hx hy
    -- an item of the new feed with an old id is an old item
    have hold : ∀ {x y}, x ∈ p.feed → y ∈ seenItems log → rawId x = some id → rawId y = some id →
        x ∈ seenItems log := by
      intro x y hx hy hi hj
      by_contra hnew
      exact lt_irrefl id (grows_seenItems grows x hx hnew y hy id hi id hj)
    obtain hx | hx := hx <;> obtain hy | hy := hy
    · exact ih hx hy
    · exact ih hx (hold hy hx hj hi)
    · exact ih (hold hx hy hi hj) hy
    · exact feed.inj hx hy hi hj

theorem History.feeds (h : History least poller target version log s) :
    ∀ entry ∈ log, Feed least entry.1.feed := by
  induction h with
  | start => nofun
  | poll _ _ feed _ _ _ ih =>
    intro entry hentry
    obtain hentry | hentry := mem_append.mp hentry
    · exact ih entry hentry
    · rw [mem_singleton.mp hentry]
      exact feed

theorem count_events {items : List RestEventItem} {item : RestEventItem} {derived : DerivedItem}
    {now : Nat} (hnodup : items.Nodup) (hderived : itemDerived item target = some derived)
    (hunique : ∀ x ∈ items, ∀ d ∈ itemDerived x target, d.deliveryKey = derived.deliveryKey → x = item) :
    (events target now items).countP (·.deliveryKey = derived.deliveryKey) =
      if item ∈ items then 1 else 0 := by
  induction items with
  | nil => rfl
  | cons x items ih =>
    obtain ⟨hx, hnodup⟩ := nodup_cons.mp hnodup
    have hrest := ih hnodup fun y hy => hunique y (mem_cons_of_mem x hy)
    have hcons : events target now (x :: items) =
        ((itemDerived x target).map (·.event target now)).toList ++ events target now items := by
      cases hd : itemDerived x target <;> simp [events, hd]
    rw [hcons, countP_append, hrest]
    by_cases heq : x = item
    · subst heq
      have hone : (derived.event target now).deliveryKey = derived.deliveryKey := rfl
      simp [hderived, hone, hx]
    · have hzero : (((itemDerived x target).map (·.event target now)).toList).countP
          (·.deliveryKey = derived.deliveryKey) = 0 := by
        refine countP_eq_zero.mpr fun event hevent => ?_
        obtain ⟨d, hd, rfl⟩ := Option.map_eq_some_iff.mp (Option.mem_toList.mp hevent)
        have hne : d.deliveryKey ≠ derived.deliveryKey :=
          fun hkey => heq (hunique x mem_cons_self d hd hkey)
        exact fun hkey => hne (of_decide_eq_true hkey)
      rw [hzero, Nat.zero_add]
      have hmem : item ∈ x :: items ↔ item ∈ items := by
        rw [mem_cons, or_iff_right (Ne.symm heq)]
      simp only [hmem]

/-- Every tracked event of a log is offered once, by the first poll that sees it, unless that is the first
poll of all: then it is never offered. -/
theorem offered_exactly_once (h : History 1 poller target version log s)
    {before after : List (Poll × List IngressEvent)} {p : Poll} {offered : List IngressEvent}
    (hlog : log = before ++ (p, offered) :: after) {item : RestEventItem} {derived : DerivedItem}
    (hitem : item ∈ seenItems log) (hderived : itemDerived item target = some derived) :
    offered.countP (·.deliveryKey = derived.deliveryKey) =
      if before ≠ [] ∧ item ∈ p.feed ∧ item ∉ seenItems before then 1 else 0 := by
  have hp : (p, offered) ∈ log := by simp [hlog]
  have hfeed := h.feeds _ hp
  obtain ⟨entry, hentry, hmem⟩ := mem_flatMap.mp hitem
  obtain ⟨id, hid, -⟩ := (h.feeds entry hentry).numbered item hmem
  have hunique : ∀ x ∈ p.feed.filter (· ∉ seenItems before), ∀ d ∈ itemDerived x target,
      d.deliveryKey = derived.deliveryKey → x = item := by
    intro x hx d hd hkey
    have hx' : x ∈ p.feed := (mem_filter.mp hx).1
    obtain ⟨j, hj, -⟩ := hfeed.numbered x hx'
    obtain rfl : j = id := rawId_eq_of_key hd hderived hj hid hkey
    exact h.unique (mem_flatMap.mpr ⟨_, hp, hx'⟩) hitem hj hid
  rw [h.offered_eq hlog, newEvents]
  cases before with
  | nil => simp
  | cons =>
    rw [isEmpty_cons, Bool.not_false, if_pos rfl,
      count_events (hfeed.nodup.filter _) hderived hunique]
    simp [mem_filter]

end

/-! ## two small feeds -/

def opened (id : String) (number : Nat) : RestEventItem :=
  { id := some (.string id)
    kind := "IssuesEvent"
    actor := none
    payload := some
      { action := some "opened"
        issue := some { number, pullRequest := false, user := none }
        pullRequest := none } }

def demoPoller : EventPoller := { origin := fun _ => some ("https", none, none), intake := false }

def demoTarget : PollTarget := { url := "page-1", key := "o/r/events", repo := "o/r" }

def emptyStore : IngressStore := { deliveries := fun _ => none, endpoints := fun _ => none }

def twoPages (now : Nat) (page₁ page₂ : List RestEventItem) : Poll :=
  { now
    feed := page₁ ++ page₂
    pages := [page₁, page₂]
    answers := fun
      | .sqlite | .bearerToken | .intakePut _ => true
      | .push .. => .accepted
      | .get url _ => some
        { status := 200
          link := if url = "page-1" then some "<page-2>; rel=\"next\"" else none
          body := some { length := 0, items := some ((if url = "page-1" then page₁ else page₂).map some) } } }

theorem twoPages_sees (now : Nat) (page₁ page₂ : List RestEventItem) (hfirst : page₁ ≠ [] ∨ page₂ = []) :
    (twoPages now page₁ page₂).Sees demoPoller demoTarget fun _ => [] := by
  refine ⟨by simp [twoPages], ?_, ?_, ?_, ?_⟩
  · intro hne
    have hpage : page₁ ≠ [] := by
      rintro rfl
      obtain h | rfl := hfirst
      · exact h rfl
      · exact hne rfl
    simpa [twoPages] using hpage
  · rintro tag response ⟨⟩ -
    refine ⟨by rintro _ ⟨⟩; rfl, ?_⟩
    show ∀ response' ∈ (twoPages now page₁ page₂).serve "page-2" none,
      Lists demoPoller demoTarget (twoPages now page₁ page₂).serve [page₂] response'
    rintro response' ⟨⟩
    exact ⟨by rintro _ ⟨⟩; rfl, rfl⟩
  · rintro tag response ⟨⟩ - e ⟨⟩
  · rintro tag response ⟨⟩ h
    cases h

theorem feed_of_ids {least : Nat} {feed : List RestEventItem} {ids : List Nat}
    (h : feed.map rawId = ids.map some) (hsorted : ids.Pairwise (· > ·))
    (hrange : ∀ id ∈ ids, least ≤ id ∧ id ≤ i64Max) : Feed least feed := by
  constructor
  · intro item hitem
    have hmem : rawId item ∈ ids.map some := h ▸ mem_map_of_mem hitem
    obtain ⟨id, hid, heq⟩ := mem_map.mp hmem
    exact ⟨id, heq.symm, hrange id hid⟩
  · have hpairs : (feed.map rawId).Pairwise fun x y => ∀ i ∈ x, ∀ j ∈ y, j < i := by
      rw [h]
      refine pairwise_map.mpr (hsorted.imp ?_)
      rintro a b hlt _ ⟨⟩ _ ⟨⟩
      exact hlt
    exact pairwise_map.mp hpairs

/-- a first poll of `old`, and one of a feed that has grown by `new` -/
structure Demo where
  old : List RestEventItem
  new : List RestEventItem
  page₁ : List RestEventItem
  page₂ : List RestEventItem
  later : Nat

namespace Demo

def first (d : Demo) : Poll := twoPages 0 d.old []

def second (d : Demo) : Poll := twoPages d.later d.page₁ d.page₂

def registered (d : Demo) : IngressStore := (d.first.run demoPoller demoTarget emptyStore).2

def offered (d : Demo) : List IngressEvent := d.second.offered demoPoller demoTarget d.registered

def log (d : Demo) : List (Poll × List IngressEvent) :=
  [(d.first, d.first.offered demoPoller demoTarget emptyStore), (d.second, d.offered)]

theorem history (d : Demo) (least : Nat) (ids : List Nat) {o1 o2 : PollOutcome}
    (hpages : d.page₁ ++ d.page₂ = d.new ++ d.old) (hpage : d.page₁ ≠ [])
    (hids : (d.new ++ d.old).map rawId = ids.map some) (hsorted : ids.Pairwise (· > ·))
    (hrange : ∀ id ∈ ids, least ≤ id ∧ id ≤ i64Max)
    (hok1 : (d.first.run demoPoller demoTarget emptyStore).1 = .ok o1)
    (hok2 : (d.second.run demoPoller demoTarget d.registered).1 = .ok o2) :
    History least demoPoller demoTarget (fun _ => []) d.log
      (d.second.run demoPoller demoTarget d.registered).2 := by
  have hfeed : Feed least (d.new ++ d.old) := feed_of_ids hids hsorted hrange
  have hold : d.first.feed = d.old := append_nil d.old
  have hsecond : d.second.feed = d.new ++ d.old := hpages
  have hfeed1 : Feed least d.first.feed := by
    rw [hold]
    exact hfeed.append_right
  have hfeed2 : Feed least d.second.feed := by
    rw [hsecond]
    exact hfeed
  have hstart : History least demoPoller demoTarget (fun _ => []) [] emptyStore :=
    .start ⟨rfl, fun _ _ _ => rfl⟩
  have hfirst : History least demoPoller demoTarget (fun _ => [])
      ([] ++ [(d.first, d.first.offered demoPoller demoTarget emptyStore)]) d.registered :=
    .poll hstart (twoPages_sees 0 d.old [] (.inr rfl)) hfeed1 nofun (fun h => absurd rfl h)
      (Prod.ext hok1 rfl)
  refine .poll hfirst (twoPages_sees d.later d.page₁ d.page₂ (.inl hpage)) hfeed2 ?_ ?_
    (Prod.ext hok2 rfl)
  · intro _ hentry
    obtain rfl := mem_singleton.mp hentry
    intro x hx hnot y hy i hi j hj
    rw [hold] at hnot hy
    rw [hsecond] at hx
    have hx' : x ∈ d.new := (mem_append.mp hx).resolve_right hnot
    exact (pairwise_append.mp hfeed.newestFirst).2.2 x hx' y hy i hi j hj
  · intro _ x hx _
    have htake : (d.second.pages.take maxPagesPerPoll).flatten = d.second.feed := by
      simp [second, twoPages, maxPagesPerPoll]
    rw [htake]
    exact hx

end Demo

def yearLater : Demo :=
  { old := [opened "5" 3]
    new := [opened "7" 2, opened "6" 1]
    page₁ := [opened "7" 2]
    page₂ := [opened "6" 1, opened "5" 3]
    later := 31536000 }

theorem yearLater_history : History 1 demoPoller demoTarget (fun _ => []) yearLater.log
    (yearLater.second.run demoPoller demoTarget yearLater.registered).2 := by
  have hfirst : (yearLater.first.run demoPoller demoTarget emptyStore).1 =
      .ok { pollAfterSecs := 60 } := by decide +kernel
  have hsecond : (yearLater.second.run demoPoller demoTarget yearLater.registered).1 =
      .ok { accepted := 2, pollAfterSecs := 60 } := by decide +kernel
  refine yearLater.history 1 [7, 6, 5] rfl nofun ?_ ?_ ?_ hfirst hsecond <;> decide +kernel

/-- the new events are offered, the old one is not -/
theorem offered_exactly_once_yearLater :
    yearLater.offered.countP (·.deliveryKey = "6|o/r|issues-opened|") = 1 ∧
      yearLater.offered.countP (·.deliveryKey = "5|o/r|issues-opened|") = 0 := by
  have hsplit : yearLater.log = [(yearLater.first,
      yearLater.first.offered demoPoller demoTarget emptyStore)] ++ [(yearLater.second, yearLater.offered)] :=
    rfl
  have hmem : ∀ item ∈ [opened "6" 1, opened "5" 3], item ∈ seenItems yearLater.log := by
    decide +kernel
  have hsix : itemDerived (opened "6" 1) demoTarget = some
      ⟨"6|o/r|issues-opened|", "issues-opened", none, 1, none, none⟩ := by decide +kernel
  have hfive : itemDerived (opened "5" 3) demoTarget = some
      ⟨"5|o/r|issues-opened|", "issues-opened", none, 3, none, none⟩ := by decide +kernel
  have h := yearLater_history
  constructor
  · rw [offered_exactly_once h hsplit (hmem _ (by simp)) hsix]
    decide +kernel
  · rw [offered_exactly_once h hsplit (hmem _ (by simp)) hfive]
    decide +kernel

def zeroFeed : Demo :=
  { old := [opened "0" 1], new := [], page₁ := [opened "0" 1], page₂ := [], later := 31536000 }

/-- The event is in the feed of the first poll, and offered by the second: 0 is stored as the boundary and
read back as none, and the dedup window is over. -/
theorem zero_is_no_boundary :
    History 0 demoPoller demoTarget (fun _ => []) zeroFeed.log
      (zeroFeed.second.run demoPoller demoTarget zeroFeed.registered).2 ∧
    zeroFeed.first.feed = [opened "0" 1] ∧
    zeroFeed.offered.map (·.deliveryKey) = ["0|o/r|issues-opened|"] := by
  have hfirst : (zeroFeed.first.run demoPoller demoTarget emptyStore).1 = .ok { pollAfterSecs := 60 } := by
    decide +kernel
  have hsecond : (zeroFeed.second.run demoPoller demoTarget zeroFeed.registered).1 =
      .ok { accepted := 1, pollAfterSecs := 60 } := by decide +kernel
  refine ⟨zeroFeed.history 0 [0] rfl nofun ?_ ?_ ?_ hfirst hsecond, rfl, ?_⟩ <;> decide +kernel
end Ingress
