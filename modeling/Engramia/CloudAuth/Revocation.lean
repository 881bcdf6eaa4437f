import Engramia.CloudAuth.Tokens
import Engramia.Library.Run
import Engramia.Library.Tally

/-!
What the revocations of a run amount to: each process refuses the tokens that it has revoked
itself and those whose rows it found when it started.
-/
namespace Engramia.CloudAuth
open Engramia.Library

/-- The process has revoked the token itself, or the row was there when it read the table. -/
def Revocation.seenBy (r : Revocation) (i : Nat) (w : Worker) : Bool :=
  r.worker = i ||
    match r.insert with
    | .committed moment => w.readAt.any (moment < ·)
    | _ => false

theorem Revocation.seenBy_iff {r : Revocation} {i : Nat} {w : Worker} :
    r.seenBy i w = true ↔
      r.worker = i ∨ ∃ m, r.insert = .committed m ∧ ∃ l, w.readAt = some l ∧ m < l := by
  rw [seenBy, Bool.or_eq_true, decide_eq_true_iff]
  apply or_congr_right
  cases r.insert with
  | pending => simp
  | failed => simp
  | committed m => simp [Option.any_eq_true]

/-- Revocation is of tokens and by processes: a process takes an unexpired token exactly if it
has not revoked it and has not read its row, every token that a returned call was given is
revoked in its process, its insert is over, and no others are. -/
structure RevokedWhereSeen (s : TokenService) : Prop where
  accepts : ∀ i w, s.workers[i]? = some w → ∀ token ∈ s.minted, ∀ requireRefresh,
    Accepts s.clock w token requireRefresh ↔
      s.clock < token.exp ∧ token.type = (if requireRefresh then .refresh else .access) ∧
        ∀ r ∈ s.revocations, r.jti = token.jti → r.seenBy i w = false
  returned : ∀ c ∈ s.calls, c.Returned → ∀ token ∈ c.presented,
    ∃ r ∈ s.revocations, r.worker = c.worker ∧ r.jti = token.jti ∧ r.insert ≠ .pending
  presented : ∀ r ∈ s.revocations, ∃ c ∈ s.calls,
    c.worker = r.worker ∧ ∃ token ∈ c.presented, token.jti = r.jti

namespace CallPhase

/-- The tokens that a call has still to blocklist. -/
def rest : CallPhase → List Token
  | .revoking rest => rest
  | .inserting _ _ _ rest => rest
  | .cleaning _ rest => rest

/-- The revocation that a call is about to insert. -/
def current : CallPhase → Option (Nat × Token)
  | .inserting r token _ _ => some (r, token)
  | _ => none

/-- The time that a call took when it began to blocklist its token. -/
def begun : CallPhase → Option ℚ
  | .revoking _ => none
  | .inserting _ _ now _ => some now
  | .cleaning now _ => some now

end CallPhase

namespace TokenService

/-- When a token lapses. -/
def lapse (s : TokenService) (jti : Nat) : Option ℚ :=
  (s.minted[jti]?).map fun token => (token.exp : ℚ)

def Seen (s : TokenService) (i : Nat) (w : Worker) (jti : Nat) : Prop :=
  ∃ r ∈ s.revocations, r.jti = jti ∧ r.seenBy i w = true

def Committed (s : TokenService) (jti : Nat) : Prop :=
  ∃ r ∈ s.revocations, r.jti = jti ∧ ∃ moment, r.insert = .committed moment

/-- A revocation that a call has begun. -/
def Begun (s : TokenService) (i : Nat) (c : Call) (token : Token) (r : Nat)
    (ended : InsertOutcome → Prop) : Prop :=
  ∃ x, s.revocations[r]? = some x ∧ x.call = i ∧ x.worker = c.worker ∧ x.jti = token.jti ∧
    ended x.insert

structure CallInv (s : TokenService) (i : Nat) (c : Call) : Prop where
  worker_lt : c.worker < s.workers.length
  issued : ∀ token ∈ c.presented, s.minted[token.jti]? = some token
  rest_subset : ∀ token ∈ c.phase.rest, token ∈ c.presented
  begun_le : ∀ now ∈ c.phase.begun, now ≤ s.clock
  current : ∀ x ∈ c.phase.current, x.2 ∈ c.presented ∧ s.Begun i c x.2 x.1 (· = .pending)
  handled : ∀ token ∈ c.presented, token ∈ c.phase.rest ∨ (∃ x ∈ c.phase.current, x.2 = token) ∨
    ∃ r, s.Begun i c token r (· ≠ .pending)

structure TokenInv (s : TokenService) : Prop where
  jtis : ∀ (t : Nat) (token : Token), s.minted[t]? = some token → token.jti = t
  read_lt : ∀ w ∈ s.workers, ∀ l ∈ w.readAt, l < s.moment
  committed_lt : ∀ r ∈ s.revocations, ∀ m, r.insert = .committed m → m < s.moment
  origin : ∀ r ∈ s.revocations, ∃ c : Call, s.calls[r.call]? = some c ∧ c.worker = r.worker ∧
    ∃ token ∈ c.presented, token.jti = r.jti
  calls : ∀ (i : Nat) (c : Call), s.calls[i]? = some c → s.CallInv i c
  rows : s.revokedJtis.Reflects s.clock s.lapse s.Committed
  workers : ∀ (i : Nat) (w : Worker), s.workers[i]? = some w →
    w.blocklist.Reflects s.clock s.lapse (s.Seen i w)

variable {s s' : TokenService} {i : Nat} {c : Call} {w : Worker}

theorem CallInv.frame (h : s.CallInv i c) (hclock : s.clock ≤ s'.clock)
    (hworkers : s.workers.length ≤ s'.workers.length)
    (hminted : ∀ (t : Nat) (token : Token), s.minted[t]? = some token → s'.minted[t]? = some token)
    (hrevs : ∀ (r : Nat) (x : Revocation), s.revocations[r]? = some x → x.call = i →
      s'.revocations[r]? = some x) :
    s'.CallInv i c := by
  have hbegun : ∀ {token : Token} {r : Nat} {ended : InsertOutcome → Prop},
      s.Begun i c token r ended → s'.Begun i c token r ended := by
    intro token r ended hbegun
    obtain ⟨x, hx, hcall, hrest⟩ := hbegun
    exact ⟨x, hrevs r x hx hcall, hcall, hrest⟩
  exact {
    worker_lt := Nat.lt_of_lt_of_le h.worker_lt hworkers
    issued := fun token htoken => hminted _ _ (h.issued token htoken)
    rest_subset := h.rest_subset
    begun_le := fun now hnow => le_trans (h.begun_le now hnow) hclock
    current := fun x hx => ⟨(h.current x hx).1, hbegun (h.current x hx).2⟩
    handled := by
      intro token htoken
      cases h.handled token htoken with
      | inl hrest => exact .inl hrest
      | inr hother =>
          cases hother with
          | inl hcurrent => exact .inr (.inl hcurrent)
          | inr hended =>
              obtain ⟨r, hr⟩ := hended
              exact .inr (.inr ⟨r, hbegun hr⟩) }

theorem lapse_of_minted (hminted : ∀ (t : Nat) (token : Token), s.minted[t]? = some token →
    s'.minted[t]? = some token) (jti : Nat) (t : ℚ) (h : s.lapse jti = some t) :
    s'.lapse jti = some t := by
  rw [lapse, Option.map_eq_some_iff] at h ⊢
  obtain ⟨token, htoken, ht⟩ := h
  exact ⟨token, hminted jti token htoken, ht⟩

namespace TokenInv

theorem origin_set (h : TokenInv s) (phase : CallPhase) (hi : s.calls[i]? = some c)
    {r : Revocation} (hr : r ∈ s.revocations) :
    ∃ c' : Call, (s.calls.set i { c with phase := phase })[r.call]? = some c' ∧
      c'.worker = r.worker ∧ ∃ token ∈ c'.presented, token.jti = r.jti := by
  obtain ⟨c', hc', hworker, hpresented⟩ := h.origin r hr
  by_cases hcall : i = r.call
  · have hsame : c' = c := by
      rw [← hcall, hi] at hc'
      exact (Option.some.inj hc').symm
    refine ⟨{ c with phase := phase }, ?_, hsame ▸ hworker, hsame ▸ hpresented⟩
    rw [← hcall, List.getElem?_set_self (List.getElem?_eq_some_iff.mp hi).1]
  · exact ⟨c', (List.getElem?_set_ne hcall).trans hc', hworker, hpresented⟩

theorem database (h : TokenInv s) (db : Governance.Database) : TokenInv { s with db := db } where
  jtis := h.jtis
  read_lt := h.read_lt
  committed_lt := h.committed_lt
  origin := h.origin
  calls i c hc := (h.calls i c hc).frame (le_refl _) (Nat.le_refl _) (fun _ _ ht => ht)
    fun _ _ hx _ => hx
  rows := h.rows
  workers := h.workers

theorem later (h : TokenInv s) : TokenInv { s with moment := s.moment + 1 } where
  jtis := h.jtis
  read_lt w hw l hl := Nat.lt_succ_of_lt (h.read_lt w hw l hl)
  committed_lt r hr m hm := Nat.lt_succ_of_lt (h.committed_lt r hr m hm)
  origin := h.origin
  calls i c hc := (h.calls i c hc).frame (le_refl _) (Nat.le_refl _) (fun _ _ ht => ht)
    fun _ _ hx _ => hx
  rows := h.rows
  workers := h.workers

theorem tick (h : TokenInv s) (elapsed : NNRat) :
    TokenInv { s with clock := s.clock + elapsed } := by
  have hclock : s.clock ≤ s.clock + elapsed := le_add_of_nonneg_right elapsed.2
  exact {
    jtis := h.jtis
    read_lt := h.read_lt
    committed_lt := h.committed_lt
    origin := h.origin
    calls := fun i c hc =>
      (h.calls i c hc).frame hclock (Nat.le_refl _) (fun _ _ ht => ht) fun _ _ hx _ => hx
    rows := h.rows.mono hclock
    workers := fun i w hw => (h.workers i w hw).mono hclock }

/-- A process starts: what it has read is what was committed. -/
theorem boot (h : TokenInv s) (worker : Worker)
    (hworker : worker = ⟨s.revokedJtis.unexpired s.clock, some s.moment⟩ ∨
      worker = ⟨.empty, none⟩) :
    TokenInv { s with
      workers := s.workers ++ [worker]
      moment := s.moment + 1 } where
  jtis := h.jtis
  read_lt := by
    apply forall_mem_append_singleton
    · intro w hw l hl
      exact Nat.lt_succ_of_lt (h.read_lt w hw l hl)
    · intro l hl
      cases hworker with
      | inl hread =>
          rw [hread] at hl
          cases hl
          exact Nat.lt_succ_self _
      | inr hunread =>
          rw [hunread] at hl
          cases hl
  committed_lt r hr m hm := Nat.lt_succ_of_lt (h.committed_lt r hr m hm)
  origin := h.origin
  calls i c hc := by
    have hworkers : s.workers.length ≤ (s.workers ++ [worker]).length := by
      rw [List.length_append]
      exact Nat.le_add_right _ _
    exact (h.calls i c hc).frame (le_refl _) hworkers (fun _ _ ht => ht) fun _ _ hx _ => hx
  rows := h.rows
  workers := by
    intro i w hw
    cases getElem?_concat_cases hw with
    | inl hold => exact h.workers i w hold
    | inr hnew =>
        have hother : ∀ r ∈ s.revocations, r.worker ≠ i := by
          intro r hr heq
          obtain ⟨c, hc, hcworker, -⟩ := h.origin r hr
          have hlt := (h.calls _ c hc).worker_lt
          omega
        rw [hnew.2]
        cases hworker with
        | inl hread =>
            rw [hread]
            apply h.rows.unexpired.congr
            intro jti
            constructor
            · intro hseen
              obtain ⟨r, hr, hjti, hby⟩ := hseen
              obtain ⟨m, hm, -⟩ := (Revocation.seenBy_iff.mp hby).resolve_left (hother r hr)
              exact ⟨r, hr, hjti, m, hm⟩
            · intro hcommitted
              obtain ⟨r, hr, hjti, m, hm⟩ := hcommitted
              exact ⟨r, hr, hjti, Revocation.seenBy_iff.mpr
                (.inr ⟨m, hm, s.moment, rfl, h.committed_lt r hr m hm⟩)⟩
        | inr hunread =>
            rw [hunread]
            apply OrderedDict.Reflects.empty.congr
            intro jti
            constructor
            · intro hseen
              obtain ⟨r, hr, -, hby⟩ := hseen
              obtain ⟨m, -, l, hl, -⟩ := (Revocation.seenBy_iff.mp hby).resolve_left (hother r hr)
              cases hl
            · exact False.elim

theorem setBlocklist (h : TokenInv s) (hi : s.workers[i]? = some w)
    {blocklist : OrderedDict Nat ℚ}
    (hblocklist : blocklist.Reflects s.clock s.lapse (s.Seen i w)) :
    TokenInv (s.setBlocklist i w blocklist) where
  jtis := h.jtis
  read_lt := by
    apply forall_mem_set h.read_lt
    exact h.read_lt w (List.mem_of_getElem? hi)
  committed_lt := h.committed_lt
  origin := h.origin
  calls j c hc := by
    have hworkers : s.workers.length ≤ (s.setBlocklist i w blocklist).workers.length := by
      rw [TokenService.setBlocklist, List.length_set]
    exact (h.calls j c hc).frame (le_refl _) hworkers (fun _ _ ht => ht) fun _ _ hx _ => hx
  rows := h.rows
  workers := by
    intro j w' hw'
    cases getElem?_set_cases hw' with
    | inl hold => exact h.workers j w' hold.2
    | inr hnew =>
        rw [hnew.1, hnew.2]
        exact hblocklist

theorem mint (h : TokenInv s) {tokens : List Token}
    (htokens : ∀ k token, tokens[k]? = some token → token.jti = s.minted.length + k) :
    TokenInv (s.mint tokens) := by
  have hminted : ∀ (t : Nat) (token : Token), s.minted[t]? = some token →
      (s.mint tokens).minted[t]? = some token := by
    intro t token ht
    exact getElem?_append_of_some ht tokens
  exact {
    jtis := by
      intro t token ht
      by_cases hlt : t < s.minted.length
      · have hold : s.minted[t]? = some token := (List.getElem?_append_left hlt).symm.trans ht
        exact h.jtis t token hold
      · have hle := Nat.le_of_not_lt hlt
        have hnew := htokens _ token ((List.getElem?_append_right hle).symm.trans ht)
        omega
    read_lt := h.read_lt
    committed_lt := h.committed_lt
    origin := h.origin
    calls := fun i c hc =>
      (h.calls i c hc).frame (le_refl _) (Nat.le_refl _) hminted fun _ _ hx _ => hx
    rows := h.rows.extend (lapse_of_minted hminted)
    workers := fun i w hw => (h.workers i w hw).extend (lapse_of_minted hminted) }

theorem call (h : TokenInv s) (hi : i < s.workers.length) (kind : CallKind)
    (tokens : List (Option Nat)) : TokenInv (s.call i kind tokens) where
  jtis := h.jtis
  read_lt := h.read_lt
  committed_lt := h.committed_lt
  origin r hr := by
    obtain ⟨c, hc, hrest⟩ := h.origin r hr
    exact ⟨c, getElem?_append_of_some hc _, hrest⟩
  calls j c hc := by
    cases getElem?_concat_cases hc with
    | inl hold =>
        exact (h.calls j c hold).frame (le_refl _) (Nat.le_refl _) (fun _ _ ht => ht)
          fun _ _ hx _ => hx
    | inr hnew =>
        rw [hnew.2]
        exact {
          worker_lt := hi
          issued := by
            intro token htoken
            obtain ⟨presented, -, hpresented⟩ := List.mem_filterMap.mp htoken
            obtain ⟨t, -, ht⟩ := Option.bind_eq_some_iff.mp hpresented
            rw [h.jtis t token ht]
            exact ht
          rest_subset := fun token htoken => htoken
          begun_le := by
            intro now hnow
            cases hnow
          current := by
            intro x hx
            cases hx
          handled := fun token htoken => .inl htoken }
  rows := h.rows
  workers := h.workers

/-- A call goes on to another phase, and its revocations stay. -/
theorem setPhase (h : TokenInv s) (hi : s.calls[i]? = some c) {phase : CallPhase}
    (hphase : s.CallInv i { c with phase := phase }) : TokenInv (s.setPhase i c phase) where
  jtis := h.jtis
  read_lt := h.read_lt
  committed_lt := h.committed_lt
  origin r hr := h.origin_set phase hi hr
  calls j c' hc' := by
    cases getElem?_set_cases hc' with
    | inl hold =>
        exact (h.calls j c' hold.2).frame (le_refl _) (Nat.le_refl _) (fun _ _ ht => ht)
          fun _ _ hx _ => hx
    | inr hnew =>
        rw [hnew.1, hnew.2]
        exact hphase.frame (le_refl _) (Nat.le_refl _) (fun _ _ ht => ht) fun _ _ hx _ => hx
  rows := h.rows
  workers := h.workers

theorem seen_revoke (s : TokenService) (i : Nat) (c : Call) (token : Token) (j : Nat) (w : Worker)
    (jti : Nat) :
    ({ s with
        revocations := s.revocations ++
          [{ call := i, worker := c.worker, jti := token.jti }] } : TokenService).Seen j w jti ↔
      s.Seen j w jti ∨ jti = token.jti ∧ c.worker = j := by
  constructor
  · intro hseen
    obtain ⟨r, hr, hjti, hby⟩ := hseen
    cases List.mem_append.mp hr with
    | inl hold => exact .inl ⟨r, hold, hjti, hby⟩
    | inr hnew =>
        rw [List.mem_singleton.mp hnew] at hjti hby
        cases Revocation.seenBy_iff.mp hby with
        | inl hworker => exact .inr ⟨hjti.symm, hworker⟩
        | inr hread =>
            obtain ⟨m, hm, -⟩ := hread
            cases hm
  · intro hseen
    cases hseen with
    | inl hold =>
        obtain ⟨r, hr, hrest⟩ := hold
        exact ⟨r, List.mem_append_left _ hr, hrest⟩
    | inr hnew =>
        exact ⟨_, List.mem_append_right _ (List.mem_singleton_self _), hnew.1.symm,
          Revocation.seenBy_iff.mpr (.inl hnew.2)⟩

theorem committed_revoke (s : TokenService) (i : Nat) (c : Call) (token : Token) (jti : Nat) :
    ({ s with
        revocations := s.revocations ++
          [{ call := i, worker := c.worker, jti := token.jti }] } : TokenService).Committed jti ↔
      s.Committed jti := by
  constructor
  · intro hcommitted
    obtain ⟨r, hr, hjti, m, hm⟩ := hcommitted
    cases List.mem_append.mp hr with
    | inl hold => exact ⟨r, hold, hjti, m, hm⟩
    | inr hnew =>
        rw [List.mem_singleton.mp hnew] at hm
        cases hm
  · intro hcommitted
    obtain ⟨r, hr, hrest⟩ := hcommitted
    exact ⟨r, List.mem_append_left _ hr, hrest⟩

theorem revoke (h : TokenInv s) (hi : s.calls[i]? = some c) (hw : s.workers[c.worker]? = some w)
    {token : Token} (htoken : token ∈ c.presented) :
    TokenInv { s.setBlocklist c.worker w
        ((w.blocklist.set token.jti token.exp).dropStale s.clock) with
      revocations := s.revocations ++
        [{ call := i, worker := c.worker, jti := token.jti }] } where
  jtis := h.jtis
  read_lt := by
    apply forall_mem_set h.read_lt
    exact h.read_lt w (List.mem_of_getElem? hw)
  committed_lt := by
    apply forall_mem_append_singleton h.committed_lt
    intro m hm
    cases hm
  origin := by
    apply forall_mem_append_singleton h.origin
    exact ⟨c, hi, rfl, token, htoken, rfl⟩
  calls j c' hc' := by
    have hworkers : s.workers.length ≤ (s.setBlocklist c.worker w
        ((w.blocklist.set token.jti token.exp).dropStale s.clock)).workers.length := by
      rw [TokenService.setBlocklist, List.length_set]
    exact (h.calls j c' hc').frame (le_refl _) hworkers (fun _ _ ht => ht)
      fun _ _ hx _ => getElem?_append_of_some hx _
  rows := h.rows.congr (committed_revoke s i c token)
  workers := by
    intro j w' hw'
    have hlapse : s.lapse token.jti = some (token.exp : ℚ) := by
      rw [lapse, (h.calls i c hi).issued token htoken]
      rfl
    cases getElem?_set_cases hw' with
    | inl hold =>
        apply (h.workers j w' hold.2).congr
        intro jti
        apply (seen_revoke s i c token j w' jti).trans
        exact or_iff_left fun hnew => hold.1 hnew.2.symm
    | inr hnew =>
        rw [hnew.1, hnew.2]
        apply (((h.workers c.worker w hw).set hlapse).dropStale (le_refl _)).congr
        intro jti
        apply (seen_revoke s i c token c.worker _ jti).trans
        exact or_congr_right (and_iff_left rfl)

section EndInsert
variable {r : Nat} {x : Revocation} {token : Token} {outcome : InsertOutcome}

theorem endInsert_revocations (hx : s.revocations[r]? = some x) :
    (s.endInsert r outcome).revocations = s.revocations.set r { x with insert := outcome } :=
  modify_eq_set hx _

theorem mem_endInsert (hx : s.revocations[r]? = some x) {y : Revocation}
    (hy : y ∈ (s.endInsert r outcome).revocations) :
    y ∈ s.revocations ∨ y = { x with insert := outcome } := by
  rw [endInsert_revocations hx] at hy
  exact List.mem_or_eq_of_mem_set hy

theorem endInsert_self (hx : s.revocations[r]? = some x) :
    (s.endInsert r outcome).revocations[r]? = some { x with insert := outcome } := by
  rw [endInsert_revocations hx]
  exact List.getElem?_set_self (List.getElem?_eq_some_iff.mp hx).1

/-- The other revocations stay where they are. -/
theorem endInsert_other (hx : s.revocations[r]? = some x) {k : Nat} {y : Revocation}
    (hy : s.revocations[k]? = some y) (hne : y ≠ x) :
    (s.endInsert r outcome).revocations[k]? = some y := by
  have hindex : r ≠ k := by
    intro heq
    rw [← heq, hx] at hy
    exact hne (Option.some.inj hy).symm
  rw [endInsert_revocations hx]
  exact (List.getElem?_set_ne hindex).trans hy

theorem committed_endInsert (hx : s.revocations[r]? = some x) (hpending : x.insert = .pending)
    (hjti : x.jti = token.jti) (jti : Nat) :
    (s.endInsert r outcome).Committed jti ↔
      s.Committed jti ∨ (∃ m, outcome = .committed m) ∧ jti = token.jti := by
  constructor
  · intro hcommitted
    obtain ⟨r', hr', hjti', m, hm⟩ := hcommitted
    cases mem_endInsert hx hr' with
    | inl hold => exact .inl ⟨r', hold, hjti', m, hm⟩
    | inr hnew =>
        rw [hnew] at hjti' hm
        exact .inr ⟨⟨m, hm⟩, hjti'.symm.trans hjti⟩
  · intro hcommitted
    cases hcommitted with
    | inl hold =>
        obtain ⟨r', hr', hjti', m, hm⟩ := hold
        obtain ⟨k, hk⟩ := List.mem_iff_getElem?.mp hr'
        have hne : r' ≠ x := by
          intro heq
          rw [heq, hpending] at hm
          cases hm
        exact ⟨r', List.mem_of_getElem? (endInsert_other hx hk hne), hjti', m, hm⟩
    | inr hnew =>
        obtain ⟨⟨m, hm⟩, hjti'⟩ := hnew
        exact ⟨_, List.mem_of_getElem? (endInsert_self hx), hjti.trans hjti'.symm, m, hm⟩

/-- Who has read the table has not read what is committed now. -/
theorem seen_endInsert (hx : s.revocations[r]? = some x) (hpending : x.insert = .pending)
    (hmoment : ∀ m, outcome = .committed m → m = s.moment) {j : Nat}
    (hread : ∀ l ∈ w.readAt, l < s.moment) (jti : Nat) :
    (s.endInsert r outcome).Seen j w jti ↔ s.Seen j w jti := by
  have hself : ({ x with insert := outcome } : Revocation).seenBy j w = true ↔
      x.seenBy j w = true := by
    rw [Revocation.seenBy_iff, Revocation.seenBy_iff]
    apply or_congr_right
    constructor
    · intro hcommitted
      obtain ⟨m, hm, l, hl, hml⟩ := hcommitted
      have hlate := hmoment m hm
      have hearly := hread l hl
      omega
    · intro hcommitted
      obtain ⟨m, hm, -⟩ := hcommitted
      rw [hpending] at hm
      cases hm
  constructor
  · intro hseen
    obtain ⟨r', hr', hjti, hby⟩ := hseen
    cases mem_endInsert hx hr' with
    | inl hold => exact ⟨r', hold, hjti, hby⟩
    | inr hnew =>
        rw [hnew] at hjti hby
        exact ⟨x, List.mem_of_getElem? hx, hjti, hself.mp hby⟩
  · intro hseen
    obtain ⟨r', hr', hjti, hby⟩ := hseen
    obtain ⟨k, hk⟩ := List.mem_iff_getElem?.mp hr'
    by_cases heq : r' = x
    · rw [heq] at hjti hby
      exact ⟨_, List.mem_of_getElem? (endInsert_self hx), hjti, hself.mpr hby⟩
    · exact ⟨r', List.mem_of_getElem? (endInsert_other hx hk heq), hjti, hby⟩

/-- The call has handled the token whose insert is over. -/
theorem callInv_endInsert (hc : s.CallInv i c) (hcurrent : c.phase.current = some (r, token))
    (hx : s.revocations[r]? = some x) (hcall : x.call = i) (hworker : x.worker = c.worker)
    (hjti : x.jti = token.jti) (hpending : x.insert = .pending) (houtcome : outcome ≠ .pending)
    {phase : CallPhase} (hrest : phase.rest = c.phase.rest) (hnone : phase.current = none)
    (hbegun : ∀ now ∈ phase.begun, now ∈ c.phase.begun) :
    (s.endInsert r outcome).CallInv i { c with phase := phase } where
  worker_lt := hc.worker_lt
  issued := hc.issued
  rest_subset token' htoken' := hc.rest_subset token' (hrest ▸ htoken')
  begun_le now hnow := hc.begun_le now (hbegun now hnow)
  current y hy := by
    rw [hnone] at hy
    cases hy
  handled token' htoken' := by
    cases hc.handled token' htoken' with
    | inl hstill => exact .inl (hrest.symm ▸ hstill)
    | inr hother =>
        cases hother with
        | inl hnow =>
            obtain ⟨y, hy, htoken''⟩ := hnow
            rw [hcurrent] at hy
            cases hy
            exact .inr (.inr
              ⟨r, _, endInsert_self hx, hcall, hworker, htoken'' ▸ hjti, houtcome⟩)
        | inr hended =>
            obtain ⟨k, y, hy, hycall, hyworker, hyjti, hyended⟩ := hended
            have hne : y ≠ x := fun heq => hyended (heq ▸ hpending)
            exact .inr (.inr
              ⟨k, y, endInsert_other hx hy hne, hycall, hyworker, hyjti, hyended⟩)

/-- The insert of a revocation is over, and its call goes on. -/
theorem endInsert (h : TokenInv s) (hi : s.calls[i]? = some c)
    (hcurrent : c.phase.current = some (r, token)) (houtcome : outcome ≠ .pending)
    (hmoment : ∀ m, outcome = .committed m → m = s.moment) {rows : OrderedDict Nat ℚ}
    (hrows : rows.Reflects s.clock s.lapse fun jti =>
      s.Committed jti ∨ (∃ m, outcome = .committed m) ∧ jti = token.jti)
    {phase : CallPhase} (hrest : phase.rest = c.phase.rest) (hnone : phase.current = none)
    (hbegun : ∀ now ∈ phase.begun, now ∈ c.phase.begun) :
    TokenInv { ({ s.endInsert r outcome with revokedJtis := rows } : TokenService).setPhase i c
      phase with moment := s.moment + 1 } := by
  have hc := h.calls i c hi
  obtain ⟨htoken, x, hx, hcall, hworker, hjti, hpending⟩ := hc.current _ hcurrent
  have hself : (s.endInsert r outcome).CallInv i { c with phase := phase } :=
    callInv_endInsert hc hcurrent hx hcall hworker hjti hpending houtcome hrest hnone hbegun
  exact {
    jtis := h.jtis
    read_lt := fun w hw l hl => Nat.lt_succ_of_lt (h.read_lt w hw l hl)
    committed_lt := by
      intro r' hr' m hm
      cases mem_endInsert hx hr' with
      | inl hbefore => exact Nat.lt_succ_of_lt (h.committed_lt r' hbefore m hm)
      | inr hended =>
          rw [hended] at hm
          exact Nat.lt_succ_of_le (Nat.le_of_eq (hmoment m hm))
    origin := by
      intro r' hr'
      cases mem_endInsert hx hr' with
      | inl hbefore => exact h.origin_set phase hi hbefore
      | inr hended =>
          rw [hended]
          have horigin := h.origin_set phase hi (List.mem_of_getElem? hx)
          exact horigin
    calls := by
      intro j c' hc'
      cases getElem?_set_cases hc' with
      | inl hother =>
          have hframe : ∀ (k : Nat) (y : Revocation), s.revocations[k]? = some y →
              y.call = j → (s.endInsert r outcome).revocations[k]? = some y := by
            intro k y hy hycall
            apply endInsert_other hx hy
            intro heq
            exact hother.1 (hycall.symm.trans (heq ▸ hcall))
          exact (h.calls j c' hother.2).frame (le_refl _) (Nat.le_refl _) (fun _ _ ht => ht) hframe
      | inr hself' =>
          rw [hself'.1, hself'.2]
          exact hself.frame (le_refl _) (Nat.le_refl _) (fun _ _ ht => ht) fun _ _ hy _ => hy
    rows := hrows.congr (committed_endInsert hx hpending hjti)
    workers := by
      intro j w hw
      apply (h.workers j w hw).congr
      exact seen_endInsert hx hpending hmoment (h.read_lt w (List.mem_of_getElem? hw)) }

end EndInsert

theorem cleanUp (h : TokenInv s) {now : ℚ} (hnow : now ≤ s.clock) :
    TokenInv { s with revokedJtis := s.revokedJtis.dropStale now } where
  jtis := h.jtis
  read_lt := h.read_lt
  committed_lt := h.committed_lt
  origin := h.origin
  calls i c hc :=
    (h.calls i c hc).frame (le_refl _) (Nat.le_refl _) (fun _ _ ht => ht) fun _ _ hx _ => hx
  rows := h.rows.dropStale hnow
  workers := h.workers

theorem idle (h : s.CallInv i c) (hnone : c.phase.current = none) :
    s.CallInv i { c with phase := .revoking c.phase.rest } where
  worker_lt := h.worker_lt
  issued := h.issued
  rest_subset := h.rest_subset
  begun_le now hnow := by cases hnow
  current x hx := by cases hx
  handled token htoken := by
    cases h.handled token htoken with
    | inl hrest => exact .inl hrest
    | inr hother =>
        cases hother with
        | inl hcurrent =>
            obtain ⟨x, hx, -⟩ := hcurrent
            rw [hnone] at hx
            cases hx
        | inr hended => exact .inr (.inr hended)

theorem insertRevoked (h : TokenInv s) {token : Token}
    (htoken : s.minted[token.jti]? = some token) :
    (insertRevoked s.revokedJtis token.jti token.exp).Reflects s.clock s.lapse
      fun jti => s.Committed jti ∨ jti = token.jti := by
  rw [CloudAuth.insertRevoked]
  by_cases hthere : (s.revokedJtis.get? token.jti).isSome = true
  · rw [if_pos hthere]
    exact h.rows.of_isSome hthere
  · rw [if_neg hthere]
    apply h.rows.set
    rw [lapse, htoken]
    rfl

theorem advance (h : TokenInv s) (hi : s.calls[i]? = some c) (succeeds : Bool) :
    TokenInv { s.advance i c succeeds with
      moment := (s.advance i c succeeds).moment + 1 } := by
  have hc := h.calls i c hi
  rw [TokenService.advance]
  cases hphase : c.phase with
  | revoking rest =>
      cases rest with
      | nil => exact h.later
      | cons token rest =>
          dsimp only
          cases hw : s.workers[c.worker]? with
          | none => exact h.later
          | some w =>
              have hpresented : ∀ x ∈ token :: rest, x ∈ c.presented := by
                intro x hx
                exact hc.rest_subset x (by rw [hphase]; exact hx)
              have hrevoked := h.revoke hi hw (hpresented token List.mem_cons_self)
              have hcall := hrevoked.calls i c hi
              apply TokenInv.later
              apply hrevoked.setPhase hi
              exact {
                worker_lt := hcall.worker_lt
                issued := hcall.issued
                rest_subset := fun x hx => hpresented x (List.mem_cons_of_mem _ hx)
                begun_le := by
                  intro now hnow
                  cases hnow
                  exact le_refl _
                current := by
                  intro x hx
                  cases hx
                  exact ⟨hpresented token List.mem_cons_self, _, List.getElem?_concat_length,
                    rfl, rfl, rfl, rfl⟩
                handled := by
                  intro x hx
                  have hbefore := hcall.handled x hx
                  rw [hphase] at hbefore
                  cases hbefore with
                  | inl hrest =>
                      cases List.mem_cons.mp hrest with
                      | inl hself => exact .inr (.inl ⟨_, rfl, hself.symm⟩)
                      | inr hlater => exact .inl hlater
                  | inr hother =>
                      cases hother with
                      | inl hcurrent =>
                          obtain ⟨y, hy, -⟩ := hcurrent
                          cases hy
                      | inr hended => exact .inr (.inr hended) }
  | inserting r token now rest =>
      have hcurrent : c.phase.current = some (r, token) := by rw [hphase]; rfl
      have htoken := hc.issued token (hc.current _ hcurrent).1
      cases succeeds with
      | true =>
          apply h.endInsert hi hcurrent (by simp) (by simp)
          · apply (h.insertRevoked htoken).congr
            intro jti
            simp
          · rw [hphase]
            rfl
          · rfl
          · intro x hx
            rw [hphase]
            exact hx
      | false =>
          apply h.endInsert hi hcurrent (by simp) (by simp)
          · apply h.rows.congr
            intro jti
            simp
          · rw [hphase]
            rfl
          · rfl
          · intro x hx
            cases hx
  | cleaning now rest =>
      have hnow : now ≤ s.clock := hc.begun_le now (by rw [hphase]; rfl)
      have hidle := idle hc (by rw [hphase]; rfl)
      rw [hphase] at hidle
      cases succeeds with
      | true =>
          apply TokenInv.later
          apply (h.cleanUp hnow).setPhase hi
          exact hidle.frame (le_refl _) (Nat.le_refl _) (fun _ _ ht => ht) fun _ _ hx _ => hx
      | false => exact (h.setPhase hi hidle).later

theorem decode (h : TokenInv s) (hi : s.workers[i]? = some w) (token : Option Token)
    (requireRefresh : Bool) :
    TokenInv (s.setBlocklist i w (decodeToken s.clock w.blocklist token requireRefresh).2) := by
  have hblocklist := h.workers i w hi
  exact h.setBlocklist hi (decodeToken_blocklist hblocklist hblocklist.lookUp token requireRefresh)

theorem serve (env : CloudEnv) (h : TokenInv s) (hi : s.workers[i]? = some w) (a : CloudStep) :
    TokenInv (s.serve env i w a) := by
  have hlt : i < s.workers.length := (List.getElem?_eq_some_iff.mp hi).1
  cases a with
  | decode j token requireRefresh => exact h.decode hi _ _
  | login j email password =>
      rw [TokenService.serve]
      cases CloudAuth.login env s.db email password with
      | error refusal => exact h
      | ok user =>
          apply h.mint
          intro k token htoken
          cases k with
          | zero => cases htoken; rfl
          | succ k =>
              cases k with
              | zero => cases htoken; rfl
              | succ k => cases htoken
  | refresh j token =>
      have hdecoded := h.decode hi (s.token? token) true
      rw [TokenService.serve]
      cases (decodeToken s.clock w.blocklist (s.token? token) true).1 with
      | error refusal => exact hdecoded
      | ok payload =>
          apply hdecoded.mint
          intro k token htoken
          cases k with
          | zero => cases htoken; rfl
          | succ k => cases htoken
  | logout j token refreshToken => exact h.call hlt _ _
  | deleteMe j now ip deletionToken bearer =>
      rw [TokenService.serve]
      cases s.db.deleteMe env.storage now env.sha256 ip deletionToken with
      | error refusal => exact h
      | ok deleted => exact (h.database deleted.1).call hlt _ _
  | tick elapsed => exact h
  | boot loaded => exact h
  | advance j succeeds => exact h

theorem dispatch (env : CloudEnv) (h : TokenInv s) (i : Nat) (a : CloudStep) :
    TokenInv (s.dispatch env i a) := by
  rw [TokenService.dispatch]
  cases hi : s.workers[i]? with
  | none => exact h
  | some w => exact h.serve env hi a

theorem step (env : CloudEnv) (h : TokenInv s) (a : CloudStep) : TokenInv (s.step env a) := by
  cases a with
  | tick elapsed => exact (h.tick elapsed).later
  | boot loaded =>
      cases loaded with
      | true => exact h.boot _ (.inl rfl)
      | false => exact h.boot _ (.inr rfl)
  | decode i token requireRefresh => exact (h.dispatch env i _).later
  | login i email password => exact (h.dispatch env i _).later
  | refresh i token => exact (h.dispatch env i _).later
  | logout i token refreshToken => exact (h.dispatch env i _).later
  | deleteMe i now ip deletionToken bearer => exact (h.dispatch env i _).later
  | advance i succeeds =>
      rw [TokenService.step, act]
      cases hi : s.calls[i]? with
      | none => exact h.later
      | some c => exact h.advance hi succeeds

/-- What the invariant says of the tokens that are accepted. -/
theorem revokedWhereSeen (h : TokenInv s) : RevokedWhereSeen s where
  accepts i w hw token htoken requireRefresh := by
    obtain ⟨t, ht⟩ := List.mem_iff_getElem?.mp htoken
    have hjti : s.lapse token.jti = some (token.exp : ℚ) := by
      rw [lapse, h.jtis t token ht, ht]
      rfl
    rw [accepts_iff]
    apply and_congr_right
    intro hexp
    apply and_congr_right
    intro _
    rw [← Bool.not_eq_true, (h.workers i w hw).lookUp_iff hjti hexp]
    constructor
    · intro hunseen r hr hrjti
      rw [← Bool.not_eq_true]
      exact fun hby => hunseen ⟨r, hr, hrjti, hby⟩
    · intro hunseen hseen
      obtain ⟨r, hr, hrjti, hby⟩ := hseen
      rw [hunseen r hr hrjti] at hby
      cases hby
  returned c hc hreturned token htoken := by
    obtain ⟨i, hi⟩ := List.mem_iff_getElem?.mp hc
    have hhandled := (h.calls i c hi).handled token htoken
    rw [hreturned] at hhandled
    cases hhandled with
    | inl hrest => cases hrest
    | inr hother =>
        cases hother with
        | inl hcurrent =>
            obtain ⟨x, hx, -⟩ := hcurrent
            cases hx
        | inr hended =>
            obtain ⟨r, x, hx, -, hworker, hjti, hinsert⟩ := hended
            exact ⟨x, List.mem_of_getElem? hx, hworker, hjti, hinsert⟩
  presented r hr := by
    obtain ⟨c, hc, hrest⟩ := h.origin r hr
    exact ⟨c, List.mem_of_getElem? hc, hrest⟩

end TokenInv

theorem tokenInv_initial (db : Governance.Database) (clock : ℚ) : TokenInv (initial db clock) where
  jtis t token ht := by cases ht
  read_lt w hw := by cases hw
  committed_lt r hr := by cases hr
  origin r hr := by cases hr
  calls i c hc := by cases hc
  rows := by
    apply OrderedDict.Reflects.empty.congr
    intro jti
    exact iff_false_intro fun hcommitted => by
      obtain ⟨r, hr, -⟩ := hcommitted
      cases hr
  workers i w hw := by cases hw

end TokenService

open TokenService in
/-- In any run of any number of processes, revocation is of the presented tokens and by the
processes that revoked them or found their rows. -/
theorem revoked_where_seen (env : CloudEnv) (db : Governance.Database) (clock : ℚ)
    (run : List CloudStep) :
    Always (step env) RevokedWhereSeen (initial db clock) run :=
  (always_of_step (P := TokenInv) (fun _ a h => h.step env a) (tokenInv_initial db clock) run).mono
    fun _ h => h.revokedWhereSeen

section Sample

/-- A token whose session a logout ended, or whose user was deleted. -/
def Call.Covers (c : Call) (token : Token) : Prop :=
  (c.kind = .logout ∧
      (∃ presented ∈ c.presented, presented.type = .access ∧ presented.session = token.session) ∧
      ∃ presented ∈ c.presented, presented.type = .refresh ∧
        presented.session = token.session) ∨
    c.kind = .deletion token.sub

instance (c : Call) (token : Token) : Decidable (c.Covers token) :=
  inferInstanceAs (Decidable (_ ∨ _))

/-- Once a logout or a deletion has returned, no process accepts the tokens that it covers. -/
def GloballyRevoked (s : TokenService) : Prop :=
  ∀ c ∈ s.calls, c.Returned → ∀ w ∈ s.workers, ∀ token ∈ s.minted, c.Covers token →
    ∀ requireRefresh, ¬ Accepts s.clock w token requireRefresh

instance (s : TokenService) : Decidable (GloballyRevoked s) :=
  inferInstanceAs (Decidable (∀ c ∈ s.calls, c.Returned → ∀ w ∈ s.workers, ∀ token ∈ s.minted,
    c.Covers token → ∀ requireRefresh, ¬ Accepts s.clock w token requireRefresh))

def sampleCloudEnv : CloudEnv where
  lower := id
  verifyPassword := fun password hash => password = hash
  columns := fun _ => ⟨"credentials", true⟩
  sha256 := id
  storage := .nullStorage

def oneUser : Governance.Database where
  memoryData := []
  memoryEmbeddings := []
  jobs := []
  apiKeys := ⟨[], List.nodup_nil⟩
  credentials := []
  auditLog := []
  projects := ⟨[], List.nodup_nil⟩
  tenants := ⟨[], List.nodup_nil⟩
  cloudUsers :=
    ⟨[⟨"user-1", "acme", "user@example.com", none, some "hash", none, none, none⟩],
      List.nodup_singleton _⟩
  deletionRequests := ⟨[], List.nodup_nil⟩
  waitlist := []
  keyCache := []

/-- Two processes; a login and a logout with both tokens at the first. -/
def logoutAtFirst : List CloudStep :=
  [.boot true, .boot true, .login 0 "user@example.com" "hash", .logout 0 (some 0) (some 1)] ++
    List.replicate 6 (.advance 0 true)

open TokenService in
/-- The second process still accepts both tokens. -/
theorem other_process_accepts :
    ¬ Always (step sampleCloudEnv) GloballyRevoked (initial oneUser 0) logoutAtFirst := by
  apply not_always_of_last
  decide +kernel

end Sample

end Engramia.CloudAuth
