import WakeRouter.Proofs.Proxy.MachineAuthority
import WakeRouter.Proofs.Router.Outcomes

/-!
# Where requests go

A request goes to the authority of one machine: of the machine that the record of its key has
when its caller is told of it.  Neither the host nor the port in that authority can be taken for
those of a machine with another address.
-/

namespace WakeRouter.Router

variable {r : Router} {x : ExchangeId} {exchange : Exchange} {sent : Http.Request}

/-- In the step the caller of the request is told the address in the record of its key, and the
request goes to the machine there. -/
structure SentTo (t : Run.Transition Router Event) (x : ExchangeId) (exchange : Exchange)
    (sent : Http.Request) (record : Record) (host : List Char) (port : UInt16) : Prop where
  told : ∃ m, Returns t x m (.address record.address)
  recorded : t.before.manager.records.find? exchange.key = some record
  authority : sent.uri.authority? =
    some (String.ofList (machineAuthority record.address.toList port))
  designates : Designates (machineAuthority record.address.toList port) record.address.toList
    host port

theorem sentTo_of_run {deadline wakeTimeout : Duration} {port : UInt16} {es : List Event}
    (hrun : Run.after? step (start deadline port wakeTimeout) es = some r)
    (hexchange : r.exchanges[x]? = some exchange) (hsent : exchange.phase = .forwarded sent) :
    ∃ t ∈ Run.trail step (start deadline port wakeTimeout) es, ∃ record host,
      SentTo t x exchange sent record host port := by
  have hstoried := storied_of_run hrun x
  rw [hexchange] at hstoried
  obtain ⟨hstory, hknow⟩ := hstoried
  obtain ⟨t, ht, m, address, hreturns, hforward⟩ := hstory.sent hsent
  obtain ⟨hr, -, hstep⟩ := known_of_mem_trail ht
  obtain ⟨waiting, record, hwaiting, hrecord, rfl, -⟩ := served_of_returns hr hstep hreturns
  obtain ⟨phase, rfl⟩ := hknow t ht waiting (.inl hwaiting)
  obtain ⟨hauthority, huri⟩ := Http.Request.authority_of_forward? hforward
  rw [String.toList_ofList] at hauthority
  obtain ⟨host, hdesignates⟩ := designates_of_isAuthority hauthority
  exact ⟨t, ht, record, host, ⟨m, hreturns⟩, hrecord, huri, hdesignates⟩

/-- The host of a machine's authority is its address, in brackets when it is a bare literal.  An
authority belongs to one port and one address, but for such brackets.  So a request goes to the
host in the address of its own machine and to the port of all machines, under an authority that
no machine with another address has. -/
theorem authority_designates_machine (deadline wakeTimeout : Duration) (port : UInt16) :
    (∀ address p, address ≠ [] → Text.trim address = address →
      (¬IsBareLiteral address → hostKey? (machineAuthority address p) = some address) ∧
      (IsBareLiteral address →
        hostKey? (machineAuthority address p) = some ('[' :: (address ++ [']'])))) ∧
    (∀ address p, IsBareLiteral address →
      machineAuthority ('[' :: (address ++ [']'])) p = machineAuthority address p) ∧
    (∀ address other p q, machineAuthority address p = machineAuthority other q ↔
      p = q ∧ SameButBrackets address other) ∧
    ∀ es r, Run.after? step (start deadline port wakeTimeout) es = some r →
      ∀ x exchange sent, r.exchanges[x]? = some exchange → exchange.phase = .forwarded sent →
        ∃ t ∈ Run.trail step (start deadline port wakeTimeout) es, ∃ record host,
          SentTo t x exchange sent record host port := by
  refine ⟨fun address p hne htrim => ⟨fun hplain => ?_, fun hbare => ?_⟩,
    fun _ p hbare => machineAuthority_bracketed hbare p, fun _ _ _ _ => machineAuthority_eq_iff,
    fun _ _ hrun _ _ _ => sentTo_of_run hrun⟩
  · exact (StandsAs.itself hplain).hostKey?_eq hne htrim p
  · exact (StandsAs.bracketed hbare).hostKey?_eq hne htrim p

/-- A request whose machine has a literal address without brackets. -/
def toLiteral : List Event :=
  [.request 1 (hopRequest []) none false,
    .upkeep (.manager (.described 1 (.ok [⟨"vm-1", "fd00::5", "Running", ["alpha"]⟩]))),
    .upkeep (.manager (.engage 1))]

/-- One more address is not bare, and has brackets all the same that belong to no literal. -/
theorem authority_designates_machine_toLiteral :
    let first := start Manager.defaultResumeDeadline 80 (.ofSeconds 60)
    "fd00::5".toList ≠ [] ∧ Text.trim "fd00::5".toList = "fd00::5".toList ∧
      IsBareLiteral "fd00::5".toList ∧
      hostKey? (machineAuthority "fd00::5".toList 80) = some "[fd00::5]".toList ∧
      machineAuthority "[fd00::5]".toList 80 = machineAuthority "fd00::5".toList 80 ∧
      "[]:x[".toList ≠ [] ∧ Text.trim "[]:x[".toList = "[]:x[".toList ∧
      ¬IsBareLiteral "[]:x[".toList ∧
      hostKey? (machineAuthority "[]:x[".toList 80) = some "[]:x[".toList ∧
      ∃ r exchange sent, Run.after? step first toLiteral = some r ∧
        r.exchanges[0]? = some exchange ∧ exchange.phase = .forwarded sent ∧
        sent.uri.authority? = some "[fd00::5]:80" ∧
        ∃ t ∈ Run.trail step first toLiteral, ∃ record host,
          SentTo t 0 exchange sent record host 80 := by
  obtain ⟨hkey, hbrackets, -, hruns⟩ :=
    authority_designates_machine Manager.defaultResumeDeadline (.ofSeconds 60) 80
  obtain ⟨r, exchange, sent, hrun, hexchange, hsent, hauthority⟩ :
      ∃ r exchange sent,
        Run.after? step (start Manager.defaultResumeDeadline 80 (.ofSeconds 60)) toLiteral =
          some r ∧
        r.exchanges[0]? = some exchange ∧ exchange.phase = .forwarded sent ∧
        sent.uri.authority? = some "[fd00::5]:80" :=
    ⟨_, _, _, rfl, rfl, rfl, rfl⟩
  have hne : "fd00::5".toList ≠ [] := by decide
  have htrim : Text.trim "fd00::5".toList = "fd00::5".toList := by decide
  have hbare : IsBareLiteral "fd00::5".toList := by simp [IsBareLiteral]
  have hne' : "[]:x[".toList ≠ [] := by decide
  have htrim' : Text.trim "[]:x[".toList = "[]:x[".toList := by decide
  have hplain : ¬IsBareLiteral "[]:x[".toList := by simp [IsBareLiteral]
  exact ⟨hne, htrim, hbare, (hkey _ 80 hne htrim).2 hbare, hbrackets _ 80 hbare, hne', htrim',
    hplain, (hkey _ 80 hne' htrim').1 hplain, r, exchange, sent, hrun, hexchange, hsent,
    hauthority, hruns toLiteral r hrun 0 exchange sent hexchange hsent⟩

end WakeRouter.Router
