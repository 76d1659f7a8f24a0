import Manus.Aci.Zoning
import Manus.Lib.Except
import Mathlib.Data.List.Perm.Basic

/-! # What a leaf decides

A leaf looks at its rules in the order of their priority classes, in any order within a
class, and the first one that applies decides. An answer that is not unsure is what the
leaf does, whatever port the client sends from and however the leaf reads the port names
that the check cannot read.
-/

namespace Manus.Zoning

open Expression (PyException)

variable {flow : Flow} {filters : List AciFilterEntry} {rules : List AciContractRule}
  {entry : AciFilterEntry} {rule : AciContractRule} {protocol : String} {port : Option ℕ}

section Leaf

/-- How a leaf reads a port, and the port that the client sends from. -/
structure Reading where
  portOf : Option String → ℕ
  sourcePort : ℕ

/-- The leaf reads the ports that the check can read as the check does. -/
structure Reading.Agrees (r : Reading) : Prop where
  portOf : ∀ value n, portNumber value = .ok (some n) → r.portOf value = n
  sourcePort : r.sourcePort ≤ allPorts.2

/-- A port lies in a range, which is that of all ports if it has no bounds. -/
def Reading.InRange (r : Reading) (low high : Option String) (n : ℕ) : Prop :=
  low = none ∧ high = none ∨ r.portOf low ≤ n ∧ n ≤ r.portOf (high.or low)

/-- A packet of the flow matches an entry. -/
def Reading.Matches (r : Reading) (entry : AciFilterEntry) (protocol : String)
    (port : Option ℕ) : Prop :=
  entry.etherType ∈ ipEtherTypes ∧ (entry.protocol = none ∨ entry.protocol = some protocol ∧
    (∀ n ∈ port, r.InRange entry.destinationPortFrom entry.destinationPortTo n) ∧
    r.InRange entry.sourcePortFrom entry.sourcePortTo r.sourcePort)

/-- A rule that is installed applies to a packet of the flow. -/
def Reading.Applies (r : Reading) (flow : Flow) (filters : List AciFilterEntry)
    (rule : AciContractRule) : Prop :=
  concerns flow rule = true ∧ rule.state ≠ some disabled ∧
    (rule.filterId = some implicitFilter ∨
      ∃ entry ∈ entriesOf filters rule, r.Matches entry flow.protocol flow.port)

end Leaf

section Covers

variable {r : Reading}

theorem portRange_eq_some {low high : Option String} {range : ℕ × ℕ} (hr : r.Agrees)
    (h : portRange low high = .ok (some range)) :
    range = (r.portOf low, r.portOf (high.or low)) := by
  obtain ⟨first, hfirst, h⟩ := bind_eq_ok.mp h
  obtain ⟨last, hlast, h⟩ := bind_eq_ok.mp h
  obtain ⟨n, rfl, hmap⟩ := Option.bind_eq_some_iff.mp (Except.ok.inj h)
  obtain ⟨m, rfl, rfl⟩ := Option.map_eq_some_iff.mp hmap
  rw [hr.portOf _ _ hfirst, hr.portOf _ _ hlast]

theorem coverDestination_sound {covers : Bool} (hr : r.Agrees)
    (h : coverDestination entry port = .ok (some covers)) : covers = true ↔
      ∀ n ∈ port, r.InRange entry.destinationPortFrom entry.destinationPortTo n := by
  cases port with
  | none =>
    cases h
    simp
  | some n =>
    rw [coverDestination] at h
    simp only [Option.mem_def, Option.some.injEq, forall_eq']
    split at h
    · next hnone =>
      cases h
      exact iff_of_true rfl (.inl hnone)
    · next hnone =>
      cases hrange : portRange entry.destinationPortFrom entry.destinationPortTo with
      | error e =>
        rw [hrange] at h
        cases h
      | ok range =>
        rw [hrange] at h
        obtain ⟨range, rfl, rfl⟩ := Option.map_eq_some_iff.mp (Except.ok.inj h)
        rw [portRange_eq_some hr hrange, decide_eq_true_iff, Reading.InRange, or_iff_right hnone]

theorem coverSource_sound {covers : Bool} (hr : r.Agrees)
    (h : coverSource entry = .ok (some covers)) :
    covers = true ∧ r.InRange entry.sourcePortFrom entry.sourcePortTo r.sourcePort := by
  rw [coverSource] at h
  split at h
  · next hnone =>
    cases h
    exact ⟨rfl, .inl hnone⟩
  · cases hrange : portRange entry.sourcePortFrom entry.sourcePortTo with
    | error e =>
      rw [hrange] at h
      cases h
    | ok range =>
      rw [hrange] at h
      replace h := Except.ok.inj h
      dsimp only at h
      split at h
      · next hall =>
        cases h
        subst hall
        have heq := portRange_eq_some hr hrange
        rw [allPorts, Prod.mk.injEq] at heq
        exact ⟨rfl, .inr ⟨heq.1 ▸ Nat.zero_le _, heq.2 ▸ hr.sourcePort⟩⟩
      · cases h

/-- What can be told of an entry is so. -/
theorem cover_sound {covers : Bool} (hr : r.Agrees)
    (h : cover entry protocol port = .ok (some covers)) :
    covers = true ↔ r.Matches entry protocol port := by
  unfold cover at h
  split at h
  · next hether =>
    cases h
    refine iff_of_false Bool.false_ne_true fun hmatches => ?_
    simp [hmatches.1] at hether
  · next hether =>
    have hether' : entry.etherType ∈ ipEtherTypes := by simpa using hether
    rw [Reading.Matches, and_iff_right hether']
    split at h
    · next hprotocol =>
      cases h
      refine iff_of_false Bool.false_ne_true fun hmatches => ?_
      rcases hmatches with heq | ⟨heq, -⟩ <;> simp [heq] at hprotocol
    · next hprotocol =>
      split at h
      · next hany =>
        cases h
        exact iff_of_true rfl (.inl hany)
      · next hany =>
        have hsame : entry.protocol = some protocol := by simpa [hany] using hprotocol
        rw [or_iff_right hany, and_iff_right hsame]
        obtain ⟨destination, hdestination, h⟩ := bind_eq_ok.mp h
        split at h
        · next htrue =>
          subst htrue
          obtain ⟨rfl, hsource⟩ := coverSource_sound hr h
          rw [and_iff_left hsource]
          exact coverDestination_sound hr hdestination
        · next hfalse =>
          cases h
          have hcovers : covers ≠ true := fun hc => hfalse (hc ▸ rfl)
          refine iff_of_false hcovers fun hmatches => hcovers ?_
          exact (coverDestination_sound hr hdestination).mpr hmatches.1

theorem combine_eq_true {values : List (Option Bool)} (h : combine values = some true) :
    some true ∈ values := by
  unfold combine at h
  split at h
  · next hmem => simpa using hmem
  · split at h <;> cases h

theorem combine_eq_false {values : List (Option Bool)} (h : combine values = some false) :
    ∀ value ∈ values, value = some false := by
  unfold combine at h
  split at h
  · cases h
  · next htrue =>
    split at h
    · cases h
    · next hnone =>
      rintro (_ | _ | _) hvalue
      · simp [hvalue] at hnone
      · rfl
      · simp [hvalue] at htrue

/-- What can be told of a rule is so, for one that concerns the flow and is installed. -/
theorem ruleCovers_sound {covers : Bool} (hr : r.Agrees) (hconcerns : concerns flow rule = true)
    (hstate : rule.state ≠ some disabled) (h : ruleCovers flow filters rule = .ok (some covers)) :
    covers = true ↔ r.Applies flow filters rule := by
  rw [Reading.Applies, and_iff_right hconcerns, and_iff_right hstate]
  unfold ruleCovers at h
  split at h
  · next himplicit =>
    cases h
    exact iff_of_true rfl (.inl himplicit)
  · next himplicit =>
    rw [or_iff_right himplicit]
    obtain ⟨values, hvalues, hcombine⟩ := map_eq_ok.mp h
    obtain ⟨hback, hforth⟩ := mapM_eq_ok hvalues
    cases covers with
    | true =>
      obtain ⟨entry, hentry, hcover⟩ := hback _ (combine_eq_true hcombine)
      exact iff_of_true rfl ⟨entry, hentry, (cover_sound hr hcover).mp rfl⟩
    | false =>
      refine iff_of_false Bool.false_ne_true ?_
      rintro ⟨entry, hentry, hmatches⟩
      obtain ⟨value, hvalue, hcover⟩ := hforth entry hentry
      obtain rfl := combine_eq_false hcombine value hvalue
      exact Bool.false_ne_true ((cover_sound hr hcover).mpr hmatches)

end Covers

section Decision

variable {r : Reading} {found : List (AciContractRule × Option Bool)}

/-- The candidates: a rule that applies is among them, and those that surely cover apply. -/
theorem candidates_spec (hr : r.Agrees) (h : matching flow filters rules = .ok found) :
    (∀ rule ∈ rules, r.Applies flow filters rule →
      ∃ c ∈ found.filter fun c => c.1.state ≠ some disabled, c.1 = rule) ∧
    ∀ c ∈ found.filter fun c => c.1.state ≠ some disabled,
      c.1 ∈ rules ∧ c.2 ≠ some false ∧ (c.2 = some true → r.Applies flow filters c.1) := by
  obtain ⟨judged, hjudged, hfound⟩ := bind_eq_ok.mp h
  obtain rfl := Except.ok.inj hfound
  obtain ⟨hback, hforth⟩ := mapM_eq_ok hjudged
  constructor
  · intro rule hrule happlies
    obtain ⟨c, hc, hmap⟩ := hforth rule (List.mem_filter.mpr ⟨hrule, happlies.1⟩)
    obtain ⟨covers, hcovers, rfl⟩ := map_eq_ok.mp hmap
    refine ⟨(rule, covers), List.mem_filter.mpr ⟨List.mem_filter.mpr ⟨hc, ?_⟩, ?_⟩, rfl⟩
    · rw [decide_eq_true_iff]
      rintro rfl
      exact Bool.false_ne_true ((ruleCovers_sound hr happlies.1 happlies.2.1 hcovers).mpr happlies)
    · exact decide_eq_true happlies.2.1
  · intro c hc
    obtain ⟨hmem, hstate⟩ := List.mem_filter.mp hc
    obtain ⟨rule, hrule, hmap⟩ := hback c (List.mem_filter.mp hmem).1
    obtain ⟨covers, hcovers, rfl⟩ := map_eq_ok.mp hmap
    obtain ⟨hin, hconcerns⟩ := List.mem_filter.mp hrule
    refine ⟨hin, of_decide_eq_true (List.mem_filter.mp hmem).2, ?_⟩
    rintro rfl
    exact (ruleCovers_sound hr hconcerns (of_decide_eq_true hstate) hcovers).mp rfl

/-- What the winners of a class agree on, and the one that is shown. -/
theorem decideAmong_spec {winners : List AciContractRule} {outcome : Outcome}
    (h : (decideAmong filters winners).outcome = some (.decided outcome)) :
    (∀ rule ∈ winners, actionOutcome rule.action = some outcome) ∧
      ∃ winner ∈ winners, (decideAmong filters winners).rule = some winner := by
  unfold decideAmong at h ⊢
  dsimp only at h ⊢
  split at h
  · next outcome' houtcomes =>
    cases h
    have hall : ∀ rule ∈ winners, actionOutcome rule.action = some outcome := by
      intro rule hrule
      have hmem : actionOutcome rule.action ∈ [some outcome] := by
        rw [← houtcomes, List.mem_eraseDups]
        exact List.mem_map_of_mem hrule
      exact List.mem_singleton.mp hmem
    refine ⟨hall, ?_⟩
    cases hsorted : winners.mergeSort fun a b => a.filterId.getD "" ≤ b.filterId.getD "" with
    | nil =>
      have hnil : winners = [] := by
        rw [← List.length_eq_zero_iff, ← List.length_mergeSort, hsorted]
        rfl
      subst hnil
      cases houtcomes
    | cons winner others =>
      refine ⟨winner, ?_, rfl⟩
      rw [← List.mem_mergeSort, hsorted]
      exact List.mem_cons_self
  · cases h

/-- The candidates are enough for an answer: all have a rank, and those that may cover the flow
come after the best of those that do. -/
structure Settled (best : ℕ) (candidates : List (AciContractRule × Option Bool)) : Prop where
  sure : ∀ c ∈ candidates, c.2 = some true → ∃ n, rank c.1 = some n ∧ best ≤ n
  maybe : ∀ c ∈ candidates, c.2 = none → ∃ n, rank c.1 = some n ∧ best < n

theorem evaluateLeaf_cases {decision : LeafDecision}
    (h : evaluateLeaf flow filters rules = .ok decision) :
    ∃ found, matching flow filters rules = .ok found ∧
      let candidates := found.filter fun c => c.1.state ≠ some disabled
      (decision.outcome = none ∧ candidates = []) ∨ decision.outcome = some .unsure ∨
      ∃ best, Settled best candidates ∧
        decision = decideAmong filters (winnersOf best candidates) := by
  obtain ⟨found, hfound, h⟩ := bind_eq_ok.mp h
  refine ⟨found, hfound, ?_⟩
  have hcovers : ∀ c ∈ found.filter fun c => c.1.state ≠ some disabled, c.2 ≠ some false := by
    obtain ⟨judged, -, hjudged⟩ := bind_eq_ok.mp hfound
    obtain rfl := Except.ok.inj hjudged
    exact fun c hc => of_decide_eq_true (List.mem_filter.mp (List.mem_filter.mp hc).1).2
  dsimp only at h ⊢
  generalize found.filter (fun c => c.1.state ≠ some disabled) = candidates at h hcovers ⊢
  split at h
  · next hempty =>
    cases h
    exact .inl ⟨rfl, List.isEmpty_iff.mp hempty⟩
  · next hempty =>
    right
    split at h
    · cases h
      exact .inl rfl
    · next hranked =>
      split at h
      · cases h
        exact .inl rfl
      · next hmaybe =>
        right
        have hrank : ∀ c ∈ candidates, ∃ n, rank c.1 = some n := by
          intro c hc
          rw [← Option.isSome_iff_exists, Option.isSome_iff_ne_none]
          exact fun hnone => hranked (List.any_eq_true.mpr ⟨c, hc, decide_eq_true hnone⟩)
        have hranks : ∀ c ∈ candidates, ∀ n, c.2 = some true → rank c.1 = some n →
            n ∈ (candidates.filter fun c => c.2 = some true).filterMap fun c => rank c.1 :=
          fun c hc n hsure hn =>
            List.mem_filterMap.mpr ⟨c, List.mem_filter.mpr ⟨hc, decide_eq_true hsure⟩, hn⟩
        cases hbest : ((candidates.filter fun c => c.2 = some true).filterMap
            fun c => rank c.1).min? with
        | none =>
          -- without a candidate that surely covers the flow, all are in doubt
          rw [List.min?_eq_none_iff] at hbest
          obtain ⟨c, hc⟩ := List.exists_mem_of_ne_nil _ (mt List.isEmpty_iff.mpr hempty)
          obtain ⟨n, hn⟩ := hrank c hc
          rw [List.any_eq_true] at hmaybe
          rcases hcase : c.2 with _ | _ | _
          · exact absurd ⟨c, hc, by simp [hcase, hbest]⟩ hmaybe
          · exact absurd hcase (hcovers c hc)
          · have hmem := hranks c hc n hcase hn
            rw [hbest] at hmem
            exact absurd hmem List.not_mem_nil
        | some best =>
          obtain ⟨-, hleast⟩ := List.min?_eq_some_iff.mp hbest
          rw [hbest] at h hmaybe
          refine ⟨best, ⟨fun c hc hsure => ?_, fun c hc hdoubt => ?_⟩, (Except.ok.inj h).symm⟩
          · obtain ⟨n, hn⟩ := hrank c hc
            exact ⟨n, hn, hleast n (hranks c hc n hsure hn)⟩
          · obtain ⟨n, hn⟩ := hrank c hc
            refine ⟨n, hn, not_le.mp fun hle => hmaybe (List.any_eq_true.mpr ⟨c, hc, ?_⟩)⟩
            simp [hdoubt, hn, hle]

theorem exists_first {α : Type} {P : α → Prop} {l : List α} (h : ∃ x ∈ l, P x) :
    ∃ before x after, l = before ++ x :: after ∧ (∀ y ∈ before, ¬ P y) ∧ P x := by
  classical
  obtain ⟨x, hx, hPx⟩ := h
  cases hfind : l.find? fun x => decide (P x) with
  | none => exact absurd (decide_eq_true hPx) (List.find?_eq_none.mp hfind x hx)
  | some y =>
    obtain ⟨hy, before, after, hl, hbefore⟩ := List.find?_eq_some_iff_append.mp hfind
    exact ⟨before, y, after, hl, fun z hz => by simpa using hbefore z hz, of_decide_eq_true hy⟩

/-- An answer of the check that is not unsure is what the leaf does. The leaf has the rules in
some order of their classes, and the first one that applies decides: it has the outcome of the
answer and is of the class of the rule that the answer shows. Without an answer none applies. -/
theorem evaluateLeaf_sound {decision : LeafDecision}
    (h : evaluateLeaf flow filters rules = .ok decision) {r : Reading} (hr : r.Agrees)
    {rankOf : AciContractRule → ℕ} (hrank : ∀ rule n, rank rule = some n → rankOf rule = n)
    {table : List AciContractRule} (hperm : table.Perm rules)
    (hsorted : table.Pairwise fun a b => rankOf a ≤ rankOf b) :
    (decision.outcome = none → ∀ rule ∈ table, ¬ r.Applies flow filters rule) ∧
    ∀ outcome, decision.outcome = some (.decided outcome) →
      ∃ before rule after winner, table = before ++ rule :: after ∧
        (∀ other ∈ before, ¬ r.Applies flow filters other) ∧ r.Applies flow filters rule ∧
        actionOutcome rule.action = some outcome ∧
        decision.rule = some winner ∧ winner ∈ rules ∧ rankOf winner = rankOf rule := by
  obtain ⟨found, hfound, hcases⟩ := evaluateLeaf_cases h
  obtain ⟨hback, hforth⟩ := candidates_spec hr hfound
  dsimp only at hcases
  rcases hcases with ⟨hnone, hempty⟩ | hunsure | ⟨best, hsettled, rfl⟩
  · refine ⟨fun _ rule hrule happlies => ?_, fun outcome houtcome => ?_⟩
    · obtain ⟨c, hc, -⟩ := hback rule (hperm.mem_iff.mp hrule) happlies
      rw [hempty] at hc
      exact absurd hc List.not_mem_nil
    · rw [hnone] at houtcome
      cases houtcome
  · refine ⟨fun hnone => ?_, fun outcome houtcome => ?_⟩
    · rw [hunsure] at hnone
      cases hnone
    · rw [hunsure] at houtcome
      cases houtcome
  · refine ⟨fun hnone => ?_, fun outcome houtcome => ?_⟩
    · unfold decideAmong at hnone
      dsimp only at hnone
      split at hnone <;> cases hnone
    · obtain ⟨hall, winner, hwinner, hshown⟩ := decideAmong_spec houtcome
      obtain ⟨⟨winner, covers⟩, hc, rfl⟩ := List.mem_map.mp hwinner
      obtain ⟨hcandidate, hwins⟩ := List.mem_filter.mp hc
      rw [decide_eq_true_iff] at hwins
      obtain ⟨hin, -, happlies⟩ := hforth _ hcandidate
      obtain ⟨before, rule, after, rfl, hbefore, hrule⟩ :=
        exists_first ⟨winner, hperm.mem_iff.mpr hin, happlies hwins.1⟩
      -- the winner does not come before the first rule that applies
      have hle : rankOf rule ≤ best := by
        rw [← hrank winner best hwins.2]
        have hmem := hperm.mem_iff.mpr hin
        rcases List.mem_append.mp hmem with hearly | hlate
        · exact absurd (happlies hwins.1) (hbefore winner hearly)
        · rcases List.mem_cons.mp hlate with rfl | hlate
          · exact le_rfl
          · exact List.rel_of_pairwise_cons (List.pairwise_append.mp hsorted).2.1 hlate
      obtain ⟨⟨rule, covers'⟩, hrule', rfl⟩ := hback rule
        (hperm.mem_iff.mp (List.mem_append_right _ List.mem_cons_self)) hrule
      rcases hcovers : covers' with _ | _ | _
      · obtain ⟨n, hn, hlt⟩ := hsettled.maybe _ hrule' hcovers
        rw [hrank rule n hn] at hle
        exact absurd hlt hle.not_gt
      · exact absurd hcovers (hforth _ hrule').2.1
      · obtain ⟨n, hn, hbest⟩ := hsettled.sure _ hrule' hcovers
        obtain rfl : n = best := le_antisymm (hrank rule n hn ▸ hle) hbest
        refine ⟨before, rule, after, winner, rfl, hbefore, hrule, hall rule ?_, hshown, hin, ?_⟩
        · exact List.mem_map.mpr ⟨(rule, covers'), List.mem_filter.mpr
            ⟨hrule', decide_eq_true ⟨hcovers, hn⟩⟩, rfl⟩
        · rw [hrank winner n hwins.2, hrank rule n hn]

def webEntry : AciFilterEntry :=
  ⟨some "web", none, some "tcp", none, none, some "http", none, none⟩

def zoningRule (filterId action priority tag : String) : AciContractRule :=
  ⟨some "1", some tag, some tag, some filterId, some action, some "uni-dir", some priority,
    some "enabled"⟩

/-- A flow to port 80, the rule that permits it and the implicit deny. -/
theorem webFlow_permitted : ∃ rule, actionOutcome rule.action = some .permit ∧
    Reading.Applies ⟨fun value => ((portNumber value).toOption.getD none).getD 0, 40000⟩
      ⟨"1", "a", "a", "tcp", some 80⟩ [webEntry] rule := by
  have h : evaluateLeaf ⟨"1", "a", "a", "tcp", some 80⟩ [webEntry]
      [zoningRule "implicit" "deny,log" "any_any_any" "any",
        zoningRule "web" "permit" "fully_qual" "a"] =
      .ok (decideAmong [webEntry] [zoningRule "web" "permit" "fully_qual" "a"]) := by rfl
  have hrank : ∀ rule n, rank rule = some n → (rank rule).getD 0 = n := fun rule n h => by
    rw [h, Option.getD_some]
  have hsound := evaluateLeaf_sound h
    (r := ⟨fun value => ((portNumber value).toOption.getD none).getD 0, 40000⟩)
    ⟨fun value n h => by simp [h, Except.toOption], by decide⟩ hrank (.swap _ _ [])
    (by decide +kernel)
  obtain ⟨-, rule, -, -, -, -, happlies, hpermit, -⟩ := hsound.2 .permit rfl
  exact ⟨rule, hpermit, happlies⟩

end Decision

end Manus.Zoning
