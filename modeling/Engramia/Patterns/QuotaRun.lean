import Engramia.Billing.Webhook
import Engramia.Patterns.Quota

/-!
The pattern quota along runs. What a project or the tenant may still grow to is what
is stored and what the requests in hand may add. As long as every request is let in
only where this leaves room, no write exceeds a limit. The checks see one project and
no request in hand, a job checks nothing, and a tool call knows no project cap, so
the code does not keep to it.
-/
namespace Engramia.Patterns
open Engramia.Library Engramia.Billing Engramia.Evaluation

variable {share : ProjectShare} {billing : Option World} {tenantId : String} {s : QuotaState}

namespace QuotaState

def sizeIn (projectId : String) (req : Request) : Nat :=
  if req.auth.projectId = projectId then req.work.size else 0

/-- What a project can grow to by the requests in hand. -/
def committedIn (s : QuotaState) (projectId : String) : Nat :=
  s.countPatterns projectId + s.inHand.weight (sizeIn projectId)

/-- What the tenant can grow to. -/
def committed (s : QuotaState) : Nat :=
  s.rows.length + s.inHand.weight fun req => req.work.size

section Rules
variable (share billing tenantId s)

/-- Everything in hand fits under the limits it is subject to. -/
def Fits : Prop :=
  ∀ x ∈ s.inHand.entries,
    (∀ cap, projectCap share billing x.2.auth = some cap →
      s.committedIn x.2.auth.projectId ≤ cap) ∧
    ∀ limit, tenantLimit billing tenantId = some limit → s.committed ≤ limit

/-- There is room for a request beside those in hand, under its own limits and under
those of the requests in hand on its project. -/
structure RoomFor (req : Request) : Prop where
  own : ∀ cap, projectCap share billing req.auth = some cap →
    s.committedIn req.auth.projectId + req.work.size ≤ cap
  others : ∀ x ∈ s.inHand.entries, x.2.auth.projectId = req.auth.projectId →
    ∀ cap, projectCap share billing x.2.auth = some cap →
      s.committedIn req.auth.projectId + req.work.size ≤ cap
  tenant : ∀ limit, tenantLimit billing tenantId = some limit →
    s.committed + req.work.size ≤ limit

/-- A step lets a request of the tenant in only where there is room for it. -/
def HasRoom (a : QuotaAction) : Prop :=
  ∀ id req, s.letsIn share billing a = some (id, req) → s.inHand.get? id = none →
    req.auth.tenantId = tenantId → RoomFor share billing tenantId s req

/-- A write that adds a pattern leaves its project within the cap on its key and the
tenant within the plan. -/
def Respects (a : QuotaAction) : Prop :=
  ∀ id learned replaced req, a = .write id learned replaced → s.inHand.get? id = some req →
    let s' := s.step share billing tenantId a
    (s.countPatterns req.auth.projectId < s'.countPatterns req.auth.projectId →
      ∀ cap, projectCap share billing req.auth = some cap →
        s'.countPatterns req.auth.projectId ≤ cap) ∧
    (s.rows.length < s'.rows.length →
      ∀ limit, tenantLimit billing tenantId = some limit → s'.rows.length ≤ limit)

end Rules

section Writes
variable {id : Nat} {req : Request} {inHand : OrderedDict Nat Request}

theorem committedIn_hold (p : String) :
    (s.hold inHand).committedIn p = s.countPatterns p + inHand.weight (sizeIn p) :=
  rfl

theorem committed_hold :
    (s.hold inHand).committed = s.rows.length + inHand.weight fun req => req.work.size :=
  rfl

theorem savePattern_le (row : PatternRow) :
    (s.savePattern row).inHand = s.inHand ∧
      (s.savePattern row).rows.length ≤ s.rows.length + 1 ∧
      ∀ p, (s.savePattern row).countPatterns p ≤
        s.countPatterns p + if row.projectId = p then 1 else 0 := by
  rw [savePattern]
  by_cases hrow : row ∈ s.rows
  · rw [if_pos hrow]
    exact ⟨rfl, Nat.le_succ _, fun p => Nat.le_add_right _ _⟩
  · rw [if_neg hrow]
    refine ⟨rfl, ?_, ?_⟩
    · rw [List.length_append]
      exact Nat.le_refl _
    intro p
    rw [countPatterns, countPatterns, List.countP_append, List.countP_singleton]
    by_cases hp : row.projectId = p <;> simp [hp]

/-- A request that goes on holds less, and no more is committed than before. -/
structure Advances (s s' : QuotaState) : Prop where
  held : ∀ x ∈ s'.inHand.entries, ∃ y ∈ s.inHand.entries, y.2.auth = x.2.auth
  project : ∀ p, s'.committedIn p ≤ s.committedIn p
  total : s'.committed ≤ s.committed

theorem advances_hold
    (hheld : ∀ x ∈ inHand.entries, ∃ y ∈ s.inHand.entries, y.2.auth = x.2.auth)
    (hproject : ∀ p, inHand.weight (sizeIn p) ≤ s.inHand.weight (sizeIn p))
    (htotal : (inHand.weight fun req => req.work.size) ≤
      s.inHand.weight fun req => req.work.size) :
    Advances s (s.hold inHand) where
  held := hheld
  project := fun p => Nat.add_le_add_left (hproject p) _
  total := Nat.add_le_add_left htotal _

theorem advances_save {t : QuotaState} {projectId key : String}
    (hlength : t.rows.length ≤ s.rows.length)
    (hcount : ∀ p, t.countPatterns p ≤ s.countPatterns p)
    (hheld : ∀ x ∈ t.inHand.entries, ∃ y ∈ s.inHand.entries, y.2.auth = x.2.auth)
    (hproject : ∀ p, t.inHand.weight (sizeIn p) + (if projectId = p then 1 else 0) ≤
      s.inHand.weight (sizeIn p))
    (htotal : (t.inHand.weight fun req => req.work.size) + 1 ≤
      s.inHand.weight fun req => req.work.size) :
    Advances s (t.savePattern ⟨projectId, key⟩) := by
  obtain ⟨hhand, hsaved, hgrown⟩ := savePattern_le (s := t) ⟨projectId, key⟩
  refine ⟨by rw [hhand]; exact hheld, ?_, ?_⟩
  · intro p
    have hp := hgrown p
    have hc := hcount p
    have hproj := hproject p
    rw [committedIn, committedIn, hhand]
    simp only at hp
    omega
  · rw [committed, committed, hhand]
    omega

theorem deletePattern_le (p : String) (replaced : Option String) :
    (s.deletePattern p replaced).inHand = s.inHand ∧
      (s.deletePattern p replaced).rows.length ≤ s.rows.length ∧
      ∀ q, (s.deletePattern p replaced).countPatterns q ≤ s.countPatterns q := by
  cases replaced with
  | none => exact ⟨rfl, Nat.le_refl _, fun _ => Nat.le_refl _⟩
  | some key =>
      refine ⟨rfl, List.length_filter_le _ _, ?_⟩
      intro q
      exact List.Sublist.countP_le List.filter_sublist

theorem sizeIn_work {p : String} {work : Work} :
    sizeIn p { req with work := work } = if req.auth.projectId = p then work.size else 0 :=
  rfl

theorem writeNext_advances (hreq : s.inHand.get? id = some req)
    (learned replaced : Option String) :
    Advances s (s.writeNext id req learned replaced) := by
  have hweight := fun f : Request → Nat => OrderedDict.weight_of_get? f hreq
  have hover : ∀ x ∈ (s.inHand.discard (· = id)).entries,
      ∃ y ∈ s.inHand.entries, y.2.auth = x.2.auth :=
    fun x hx => ⟨x, (OrderedDict.mem_discard.mp hx).1, rfl⟩
  have hdone : Advances s (s.hold (s.inHand.discard (· = id))) :=
    advances_hold hover (fun p => by rw [hweight]; omega) (by rw [hweight]; omega)
  cases hwork : req.work with
  | learn =>
      rw [writeNext, hwork]
      cases learned with
      | none => exact hdone
      | some key =>
          obtain ⟨hhand, hlength, hcount⟩ :=
            deletePattern_le (s := s.hold (s.inHand.discard (· = id))) req.auth.projectId replaced
          apply advances_save (s := s) hlength hcount
          · rw [hhand]
            exact hover
          · intro p
            rw [hhand, hweight (sizeIn p), sizeIn, hwork, Work.size]
            exact Nat.le_of_eq (Nat.add_comm _ _)
          · rw [hhand, hweight fun req => req.work.size, hwork, Work.size]
            exact Nat.le_of_eq (Nat.add_comm _ _)
  | imports records overwrite =>
      cases records with
      | nil =>
          rw [writeNext, hwork]
          exact hdone
      | cons record records =>
          have hheld : ∀ x ∈ (s.inHand.set id { req with
              work := .imports records overwrite }).entries,
              ∃ y ∈ s.inHand.entries, y.2.auth = x.2.auth := by
            intro x hx
            cases OrderedDict.mem_set.mp hx with
            | inl heq => exact ⟨(id, req), OrderedDict.get?_eq_some.mp hreq, by rw [heq]⟩
            | inr hold => exact ⟨x, hold.1, rfl⟩
          have hproject : ∀ p, (s.inHand.set id { req with
              work := .imports records overwrite }).weight (sizeIn p) +
              (if req.auth.projectId = p then 1 else 0) ≤ s.inHand.weight (sizeIn p) := by
            intro p
            rw [OrderedDict.weight_set, hweight (sizeIn p), sizeIn_work, sizeIn, hwork, Work.size,
              Work.size, List.length_cons]
            by_cases hp : req.auth.projectId = p
            · simp only [if_pos hp]
              omega
            · simp only [if_neg hp]
              omega
          have htotal : ((s.inHand.set id { req with
              work := .imports records overwrite }).weight fun req => req.work.size) + 1 ≤
              s.inHand.weight fun req => req.work.size := by
            rw [OrderedDict.weight_set, hweight fun req => req.work.size, hwork, Work.size,
              Work.size, List.length_cons]
            omega
          have hskip : Advances s
              (s.hold (s.inHand.set id { req with work := .imports records overwrite })) :=
            advances_hold hheld (fun p => by have := hproject p; omega) (by omega)
          rw [writeNext, hwork]
          cases record with
          | none => exact hskip
          | some key =>
              show Advances s (if _ then _ else _)
              split
              · exact hskip
              · exact advances_save (Nat.le_refl _) (fun _ => Nat.le_refl _) hheld hproject htotal

end Writes

section Runs
variable {id : Nat} {req : Request} {a : QuotaAction}

theorem fits_of_idle (hidle : s.inHand = OrderedDict.empty) :
    Fits share billing tenantId s := by
  intro x hx
  rw [hidle] at hx
  cases hx

theorem Fits.of_advances {s' : QuotaState} (hfits : Fits share billing tenantId s)
    (hadv : Advances s s') : Fits share billing tenantId s' := by
  intro x hx
  obtain ⟨y, hy, hauth⟩ := hadv.held x hx
  have hold := hfits y hy
  rw [hauth] at hold
  constructor
  · intro cap hcap
    exact Nat.le_trans (hadv.project _) (hold.1 cap hcap)
  · intro limit hlimit
    exact Nat.le_trans hadv.total (hold.2 limit hlimit)

theorem committedIn_taken (hnew : s.inHand.get? id = none) (p : String) :
    (s.hold (s.inHand.set id req)).committedIn p = s.committedIn p + sizeIn p req := by
  rw [committedIn_hold, OrderedDict.weight_set, OrderedDict.discard_of_get?_none hnew,
    committedIn]
  omega

theorem committed_taken (hnew : s.inHand.get? id = none) :
    (s.hold (s.inHand.set id req)).committed = s.committed + req.work.size := by
  rw [committed_hold, OrderedDict.weight_set, OrderedDict.discard_of_get?_none hnew, committed]
  omega

theorem Fits.of_taken (hfits : Fits share billing tenantId s)
    (hnew : s.inHand.get? id = none) (hroom : RoomFor share billing tenantId s req) :
    Fits share billing tenantId (s.hold (s.inHand.set id req)) := by
  intro x hx
  constructor
  · intro cap hcap
    rw [committedIn_taken hnew, sizeIn]
    cases OrderedDict.mem_set.mp hx with
    | inl heq =>
        rw [heq] at hcap ⊢
        rw [if_pos rfl]
        exact hroom.own cap hcap
    | inr hold =>
        by_cases hproject : req.auth.projectId = x.2.auth.projectId
        · rw [if_pos hproject, ← hproject]
          exact hroom.others x hold.1 hproject.symm cap hcap
        · rw [if_neg hproject]
          exact (hfits x hold.1).1 cap hcap
  · intro limit hlimit
    rw [committed_taken hnew]
    exact hroom.tenant limit hlimit

theorem Fits.of_takeIn {found : Option (Nat × Request)} (hfits : Fits share billing tenantId s)
    (hroom : ∀ id req, found = some (id, req) → s.inHand.get? id = none →
      req.auth.tenantId = tenantId → RoomFor share billing tenantId s req) :
    Fits share billing tenantId (s.takeIn tenantId found) := by
  cases found with
  | none => exact hfits
  | some found =>
      obtain ⟨id, req⟩ := found
      rw [takeIn]
      split
      · next h =>
          have hnew := Option.isNone_iff_eq_none.mp h.1
          exact hfits.of_taken hnew (hroom id req rfl hnew h.2)
      · exact hfits

theorem fits_step (hfits : Fits share billing tenantId s)
    (hroom : HasRoom share billing tenantId s a) :
    Fits share billing tenantId (s.step share billing tenantId a) := by
  cases a with
  | write id learned replaced =>
      rw [step]
      cases hreq : s.inHand.get? id with
      | none => exact hfits
      | some req => exact hfits.of_advances (writeNext_advances hreq learned replaced)
  | restLearn id auth reads => exact hfits.of_takeIn hroom
  | restImport id auth reads records overwrite => exact hfits.of_takeIn hroom
  | jobImport id auth records overwrite => exact hfits.of_takeIn hroom
  | toolLearn id auth reads counted => exact hfits.of_takeIn hroom

theorem countPatterns_le_committedIn (p : String) : s.countPatterns p ≤ s.committedIn p :=
  Nat.le_add_right _ _

theorem rows_le_committed : s.rows.length ≤ s.committed :=
  Nat.le_add_right _ _

theorem respects_of_fits (hfits : Fits share billing tenantId s) :
    Respects share billing tenantId s a := by
  intro id learned replaced req ha hreq s'
  have hs' : s' = s.writeNext id req learned replaced := by
    show s.step share billing tenantId a = _
    rw [ha, step, hreq]
  have hadv : Advances s s' := by
    rw [hs']
    exact writeNext_advances hreq learned replaced
  have hheld := hfits (id, req) (OrderedDict.get?_eq_some.mp hreq)
  constructor
  · intro _ cap hcap
    calc s'.countPatterns req.auth.projectId
        ≤ s'.committedIn req.auth.projectId := countPatterns_le_committedIn _
      _ ≤ s.committedIn req.auth.projectId := hadv.project _
      _ ≤ cap := hheld.1 cap hcap
  · intro _ limit hlimit
    calc s'.rows.length
        ≤ s'.committed := rows_le_committed
      _ ≤ s.committed := hadv.total
      _ ≤ limit := hheld.2 limit hlimit

end Runs

section RestOnly
variable {reads : QuotaReads} {auth : KeyContext} {projectId : String}

theorem checkQuota_room {count additional : Nat} (hreads : reads.subscription = {})
    (hcheck : reads.check.subscription = {})
    (hok : checkQuota share billing reads (some auth) count additional = .ok ()) :
    (∀ cap, projectCap share billing auth = some cap → count + additional < cap) ∧
      ∀ limit, tenantLimit billing auth.tenantId = some limit → count + additional < limit := by
  cases billing with
  | none =>
      refine ⟨?_, by intro limit hlimit; cases hlimit⟩
      intro cap hcap
      have hkey : auth.maxPatterns = some cap := hcap
      simp only [checkQuota, Option.bind_some, hkey] at hok
      split at hok
      · cases hok
      · next hlt => exact Nat.lt_of_not_le hlt
  | some w =>
      cases hplan : (getSubscription {} w auth.tenantId).patternsLimit with
      | none =>
          constructor
          · intro cap hcap
            rw [projectCap, hplan] at hcap
            cases hcap
          · intro limit hlimit
            rw [tenantLimit, Option.bind_some, hplan] at hlimit
            cases hlimit
      | some plan =>
          simp only [checkQuota, hreads, hplan] at hok
          by_cases hcapped : share.cap plan ≤ count + additional
          · rw [if_pos hcapped] at hok
            cases hok
          · rw [if_neg hcapped] at hok
            cases hpatterns : billingCheckPatterns reads.check w auth.tenantId
                (count + additional) with
            | error e =>
                simp only [hpatterns] at hok
                cases hok
            | ok u =>
                rw [billingCheckPatterns, hcheck] at hpatterns
                constructor
                · intro cap hcap
                  rw [projectCap, hplan] at hcap
                  cases hcap
                  exact Nat.lt_of_not_le hcapped
                · intro limit hlimit
                  exact checkPatterns_ok hpatterns hlimit

/-- A key's request has the place to itself: nothing is in hand, and the tenant has
patterns in its project only. -/
structure Alone (s : QuotaState) (auth : KeyContext) : Prop where
  idle : s.inHand = OrderedDict.empty
  stored : ∀ row ∈ s.rows, row.projectId = auth.projectId

/-- Only REST requests, each alone and with its billing reads intact. -/
def RestAlone (s : QuotaState) : QuotaAction → Prop
  | .restLearn _ auth reads =>
      Alone s auth ∧ reads.subscription = {} ∧ reads.check.subscription = {}
  | .restImport _ auth reads _ _ =>
      Alone s auth ∧ reads.subscription = {} ∧ reads.check.subscription = {}
  | .jobImport _ _ _ _ => False
  | .toolLearn _ _ _ _ => False
  | .write _ _ _ => True

theorem Alone.committedIn (halone : Alone s auth) :
    s.committedIn auth.projectId = s.countPatterns auth.projectId := by
  rw [QuotaState.committedIn, halone.idle]
  rfl

theorem Alone.committed (halone : Alone s auth) :
    s.committed = s.countPatterns auth.projectId := by
  have hcount : s.countPatterns auth.projectId = s.rows.length := by
    rw [countPatterns, List.countP_eq_length]
    intro row hrow
    exact decide_eq_true (halone.stored row hrow)
  rw [QuotaState.committed, halone.idle, hcount]
  rfl

theorem Alone.roomFor {work : Work} (halone : Alone s auth)
    (hkey : ∀ cap, projectCap share billing auth = some cap →
      s.countPatterns auth.projectId + work.size ≤ cap)
    (hplan : ∀ limit, tenantLimit billing tenantId = some limit →
      s.countPatterns auth.projectId + work.size ≤ limit) :
    RoomFor share billing tenantId s ⟨auth, work⟩ where
  own := by
    intro cap hcap
    rw [halone.committedIn]
    exact hkey cap hcap
  others := by
    intro x hx
    rw [halone.idle] at hx
    cases hx
  tenant := by
    intro limit hlimit
    rw [halone.committed]
    exact hplan limit hlimit

theorem restAlone_hasRoom (halone : RestAlone s a) : HasRoom share billing tenantId s a := by
  intro id req hlets _ htenant
  cases a with
  | restLearn id' auth reads =>
      simp only [letsIn] at hlets
      split at hlets
      · next hok =>
          cases hlets
          have hroom := checkQuota_room halone.2.1 halone.2.2 hok
          simp only at htenant
          rw [htenant] at hroom
          exact halone.1.roomFor hroom.1 hroom.2
      · cases hlets
  | restImport id' auth reads records overwrite =>
      simp only [letsIn] at hlets
      split at hlets
      · next hok =>
          cases hlets
          have hroom := checkQuota_room halone.2.1 halone.2.2 hok
          simp only at htenant
          rw [htenant] at hroom
          exact halone.1.roomFor (fun cap hcap => Nat.le_of_lt (hroom.1 cap hcap))
            fun limit hlimit => Nat.le_of_lt (hroom.2 limit hlimit)
      · cases hlets
  | jobImport id' auth records overwrite => cases halone
  | toolLearn id' auth reads counted => cases halone
  | write id' learned replaced => cases hlets

end RestOnly

section Sample

def fourFifths : ProjectShare := ⟨fun limit => limit * 8 / 10, 80⟩

def acmeKey (projectId : String) : KeyContext := ⟨"acme", projectId, some 1⟩

def restReads : QuotaReads := ⟨{}, ⟨⟨0, ⟨2026, 1⟩⟩, {}, false, false⟩⟩

def noPatterns : QuotaState := ⟨[], OrderedDict.empty⟩

/-- A key that may have two patterns. -/
def pairKey : KeyContext := ⟨"acme", "p", some 2⟩

/-- Two patterns are learned, and a third request is refused. -/
def learnAlone : List QuotaAction :=
  [.restLearn 0 pairKey restReads, .write 0 (some "patterns/a") none,
    .restLearn 1 pairKey restReads, .write 1 (some "patterns/b") none,
    .restLearn 2 pairKey restReads]

/-- An import of two records that was accepted for later, under a key that may have one
pattern. -/
def importByJob : List QuotaAction :=
  [.jobImport 0 (acmeKey "p") [some "patterns/a", some "patterns/b"] false,
    .write 0 none none, .write 0 none none]

def smallPlan : World := acmeWorld none [{ acmeRow with patternsLimit := some 3 }] (by decide)

/-- Three projects have used up a plan of three patterns, and none its share of two. -/
def threeProjects : QuotaState :=
  ⟨[⟨"a", "patterns/a"⟩, ⟨"b", "patterns/b"⟩, ⟨"c", "patterns/c"⟩], OrderedDict.empty⟩

def learnInThird : List QuotaAction :=
  [.restLearn 0 (acmeKey "c") restReads, .write 0 (some "patterns/d") none]

end Sample

end QuotaState

end Engramia.Patterns
