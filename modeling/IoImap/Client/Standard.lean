import IoImap.Client.Commands
import IoImap.Rfc3501.FetchFirst
import IoImap.Rfc3501.Logout
import IoImap.Rfc3501.Raw
import IoImap.Rfc3501.StartTlsBuffer
import IoImap.Rfc5256.Sort
import IoImap.Session.Budget
import IoImap.Session.Unlogged

/-!
# The coroutines that `ImapClientStd::run` takes (client.rs)

Those of the calls that are not a command alone: none of them sees the log of its
fragmentizer, and all of them live on what they read.
-/

namespace IoImap
open Fragmentizer

/-! ### Without the log -/

section Unlogged

variable {F : Type} [Fragmentizer F]

theorem ImapRaw.deserialize_erase [TagDecoder] (s : ImapRaw) (l : Logged F) :
    s.deserialize l.frag = Logged.erase (s.deserialize l) := by
  fun_induction ImapRaw.deserialize s l with
  | case1 s l info l' hp hcomplete ih =>
    have hf := Logged.progress_frag l
    rw [hp] at hf
    have hcomplete' : isMessageComplete l'.frag = true := hcomplete
    have hbytes : messageBytes l'.frag = messageBytes l' := rfl
    rw [deserialize]
    split <;> simp_all
  | case2 s l info l' hp hcomplete ih =>
    have hf := Logged.progress_frag l
    rw [hp] at hf
    have hcomplete' : ¬ isMessageComplete l'.frag = true := hcomplete
    rw [deserialize]
    split <;> simp_all
  | case3 s l l' hp ih =>
    have hf := Logged.progress_frag l
    rw [hp] at hf
    rw [deserialize]
    split <;> simp_all
  | case4 s l l' hp =>
    have hf := Logged.progress_frag l
    rw [hp] at hf
    rw [deserialize]
    split <;> simp_all
    unfold settle
    split_ifs <;> rfl

theorem ImapRaw.resume_erase [TagDecoder] (s : ImapRaw) (l : Logged F) (arg : Option Bytes) :
    s.resume l.frag arg = Logged.erase (s.resume l arg) := by
  unfold resume
  cases s.state with
  | write => rfl
  | read =>
    rcases arg with - | (- | ⟨b, bs⟩)
    · rfl
    · rfl
    · exact s.deserialize_erase (enqueueBytes l (b :: bs))

namespace ImapMessageSort

variable [TryFrom Bytes Tag] [Encoder Command] (s : ImapMessageSort) (l : Logged F) (arg : Option Bytes)

omit [TryFrom Bytes Tag] [Encoder Command] [Fragmentizer F] in
theorem nextFetch_erase (done : ImapMessageSort → List NonZeroU32) :
    s.nextFetch l.frag done = Logged.erase (s.nextFetch l done) := by
  unfold nextFetch
  split_ifs
  · rfl
  · dsimp only
    split <;> rfl

theorem resume_erase [Rfc2822] : s.resume l.frag arg = Logged.erase (s.resume l arg) := by
  unfold resume
  cases s.state with
  | sort send =>
    dsimp only
    rw [resumeSort, resumeSort, commandResume_erase]
    rfl
  | search search =>
    have hsearch : search.resume l.frag arg = Logged.erase (search.resume l arg) :=
      commandResume_erase _ search l arg
    dsimp only
    rw [resumeSearch, resumeSearch, hsearch]
    rcases search.resume l arg with ⟨y | err | ids, search', l'⟩
    · rfl
    · rfl
    · exact nextFetch_erase _ l' _
  | fetch fetch =>
    have hfetch : fetch.resume l.frag arg = Logged.erase (fetch.resume l arg) :=
      commandResume_erase _ fetch l arg
    dsimp only
    rw [resumeFetch, resumeFetch, hfetch]
    rcases fetch.resume l arg with ⟨y | err | map, fetch', l'⟩
    · rfl
    · rfl
    · exact nextFetch_erase _ l' _

end ImapMessageSort
end Unlogged

/-! ### The budgets -/

section Budgets

variable {F : Type}

namespace ImapRaw

def budget (s : ImapRaw) (arg : Option Bytes) : Nat :=
  match s.state with
  | .write => 2
  | .read => readBudget arg

theorem budget_unfed (s : ImapRaw) : s.budget none ≤ 4 := by
  unfold budget
  cases s.state <;> decide

abbrev FrugalAt (before : Nat) (r : ImapRawResult × ImapRaw × F) : Prop :=
  Frugal ImapYield.request budget before r.1 r.2.1

theorem settle_frugal (s : ImapRaw) (f : F) : FrugalAt PER_READ (s.settle f) := by
  unfold settle
  split
  · exact Nat.le_refl PER_READ
  · exact .reads rfl (fun _ => rfl) (by decide)

variable [Fragmentizer F] [TagDecoder]

theorem deserialize_frugal (s : ImapRaw) (f : F) : FrugalAt PER_READ (s.deserialize f) := by
  fun_induction deserialize s f with
  | case1 s f info f' hp hcomplete ih => exact ih
  | case2 s f info f' hp hcomplete ih => exact ih
  | case3 s f f' hp ih => exact ih
  | case4 s f f' hp => exact s.settle_frugal f'

theorem resume_frugal (s : ImapRaw) (f : F) (arg : Option Bytes) :
    FrugalAt (s.budget arg) (s.resume f arg) := by
  unfold resume budget
  cases hs : s.state with
  | write =>
    refine .asks fun answer hans => ?_
    obtain rfl := Request.answeredBy_nothing.mp hans
    exact Nat.lt_succ_self 1
  | read =>
    rcases arg with - | (- | ⟨b, bs⟩)
    · refine .reads rfl (fun answer => ?_) (Nat.le_refl 1)
      simp only [budget, hs]
    · trivial
    · exact s.deserialize_frugal _

end ImapRaw

namespace ImapMessageSort

def budget (s : ImapMessageSort) (arg : Option Bytes) : Nat :=
  match s.state with
  | .sort send => send.budget arg
  | .search search => ImapSend.budget search arg
  | .fetch fetch => ImapSend.budget fetch arg

theorem budget_new [Encoder Command] (sortCriteria : Vec1 SortCriterion) (searchCriteria : Vec1 SearchKey)
    (opts : ImapMessageSortOptions) (arg : Option Bytes) :
    (new sortCriteria searchCriteria opts).budget arg = 4 := by
  unfold budget new
  cases opts.fallback <;> rfl

abbrev FrugalAt (before : Nat) (r : Outcome F) : Prop := Frugal ImapYield.request budget before r.1 r.2.1

/-- Every chunk starts on the octets that ended the one before it. -/
theorem nextFetch_frugal (s : ImapMessageSort) (f : F) (done : ImapMessageSort → List NonZeroU32) :
    FrugalAt PER_READ (s.nextFetch f done) := by
  unfold nextFetch
  split_ifs
  · exact Nat.le_refl PER_READ
  · dsimp only
    split
    · trivial
    · exact .asks fun _ _ => Nat.lt_of_lt_of_le (Nat.lt_succ_self 3) (Nat.le_succ 4)

theorem resume_frugal [Fragmentizer F] [TryFrom Bytes Tag] [Encoder Command] [Rfc2822]
    (s : ImapMessageSort) (f : F) (arg : Option Bytes) : FrugalAt (s.budget arg) (s.resume f arg) := by
  unfold resume budget
  cases s.state with
  | sort send =>
    have hfrugal := commandResume_frugal decode send f arg
    dsimp only
    rw [resumeSort]
    generalize commandResume decode send f arg = r at hfrugal ⊢
    obtain ⟨y | err | ids, send', f'⟩ := r
    · exact hfrugal.forwards rfl fun _ => rfl
    · trivial
    · cases ids with
      | none => trivial
      | some ids => exact hfrugal
  | search search =>
    have hfrugal : Frugal ImapYield.request ImapSend.budget (ImapSend.budget search arg)
      (search.resume f arg).1 (search.resume f arg).2.1 := commandResume_frugal _ search f arg
    dsimp only
    rw [resumeSearch]
    generalize search.resume f arg = r at hfrugal ⊢
    obtain ⟨y | err | ids, search', f'⟩ := r
    · exact hfrugal.forwards rfl fun _ => rfl
    · trivial
    · exact (nextFetch_frugal _ f' _).mono hfrugal
  | fetch fetch =>
    have hfrugal : Frugal ImapYield.request ImapSend.budget (ImapSend.budget fetch arg)
      (fetch.resume f arg).1 (fetch.resume f arg).2.1 := commandResume_frugal _ fetch f arg
    dsimp only
    rw [resumeFetch]
    generalize fetch.resume f arg = r at hfrugal ⊢
    obtain ⟨y | err | map, fetch', f'⟩ := r
    · exact hfrugal.forwards rfl fun _ => rfl
    · trivial
    · exact (nextFetch_frugal _ f' _).mono hfrugal

end ImapMessageSort
end Budgets

/-! ### The coroutines -/

namespace StandardCoroutine

variable [TryFrom Bytes Tag] [Encoder Command]

def capability : StandardCoroutine ImapCapabilityGet ImapCapabilityGetError (List Capability) where
  toCoroutine := imapCapabilityGet
  request_eq := rfl
  unlogged s l arg _ := ImapCapabilityGet.resume_erase s l arg

def login : StandardCoroutine ImapLogin ImapLoginError (List Capability) where
  toCoroutine := imapLogin
  request_eq := rfl
  unlogged s l arg _ := s.resume_erase l arg

def auth (K : Type) [SaslCoroutine K] [Encoder AuthenticateData] :
    StandardCoroutine (ImapAuth K) ImapAuthError (List Capability) where
  toCoroutine := imapAuth K
  request_eq := rfl
  unlogged s l arg _ := s.resume_erase l arg

def greeting : StandardCoroutine ImapGreetingGet ImapGreetingGetError ImapGreetingOk where
  toCoroutine := imapGreetingGet
  request_eq := rfl
  unlogged s l arg _ := s.resume_erase l arg

def startTls : StandardCoroutine ImapStartTls ImapStartTlsError Bytes where
  toCoroutine := imapStartTls
  request_eq := rfl
  unlogged _ _ _ _ := rfl

def logout : StandardCoroutine ImapLogout ImapLogoutError Unit where
  toCoroutine := imapLogout
  request_eq := rfl
  unlogged s l arg _ := by
    simp only [imapLogout, ImapLogout.resume, ImapSend.resume_erase]
    rfl

def fetchFirst : StandardCoroutine ImapMessageFetchFirst ImapMessageFetchFirstError
    (Vec1 MessageDataItem) where
  toCoroutine := imapMessageFetchFirst
  request_eq := rfl
  unlogged s l arg _ := by
    simp only [imapMessageFetchFirst, ImapMessageFetchFirst.resume, commandResume_erase]
    rfl

def sort [Rfc2822] : StandardCoroutine ImapMessageSort ImapMessageSortError (List NonZeroU32) where
  toCoroutine := imapMessageSort
  request_eq := rfl
  unlogged s l arg _ := s.resume_erase l arg

omit [TryFrom Bytes Tag] [Encoder Command] in
def raw [TagDecoder] : StandardCoroutine ImapRaw ImapRawError String where
  toCoroutine := imapRaw
  request_eq := rfl
  unlogged s l arg _ := s.resume_erase l arg

end StandardCoroutine
end IoImap
