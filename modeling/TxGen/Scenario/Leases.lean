import TxGen.Core.GeneratedTx
import TxGen.Lib.OrderedAcquisition
import TxGen.Lib.System
import TxGen.Scenario.Schema

set_option autoImplicit false

/-! # Account leases

`build_binding_runtimes` gives every leased address one semaphore, whichever pools it is in, and
`bind_instance` takes the permits of an instance in the order of their addresses. The addresses of a
pool, the same on each consuming chain, and the hash that chooses its first account are given. -/

namespace TxGen

/-! ## Binding runtimes -/

structure LeasePool where
  /-- The semaphore of each account, by its number. -/
  permits : List ℕ
  slotsPerInstance : ℕ
  offset : ℕ
deriving DecidableEq

/-- Index arithmetic wraps around as that of `usize` does. -/
def LeasePool.index (pool : LeasePool) (inst slot : ℕ) : ℕ :=
  (inst * pool.slotsPerInstance + slot + pool.offset) % 2 ^ 64 % pool.permits.length

inductive BindingRuntime
  | account (pool : String) (selection : AccountSelection) (addresses : List Address)
      (leasePool : Option LeasePool) (leaseSlot : ℕ)
  | bytes32

/-- The semaphore of an address, by its number; `semaphores` lists the addresses that have one. -/
def permitFor (semaphores : List Address) (address : Address) : ℕ × List Address :=
  if address ∈ semaphores then (semaphores.idxOf address, semaphores)
  else (semaphores.length, semaphores ++ [address])

def permitsFor : List Address → List Address → List ℕ × List Address
  | semaphores, [] => ([], semaphores)
  | semaphores, address :: addresses =>
    let (permit, semaphores) := permitFor semaphores address
    let (permits, semaphores) := permitsFor semaphores addresses
    (permit :: permits, semaphores)

section Build

variable (bindings : List (String × BindingDef)) (poolAddresses : String → List Address)
  (poolSeed : String → ℕ)

/-- `lease_counts` -/
def leaseCount (pool : String) : ℕ := bindings.countP fun b => b.2 = .account pool .lease

/-- The pools that accounts are leased from. -/
def leasedPools : List String :=
  (bindings.filterMap fun b =>
    match b.2 with
    | .account pool .lease => some pool
    | _ => none).dedup

def buildLeasePools : List String → List Address → List (String × LeasePool) →
    Except Report (List (String × LeasePool) × List Address)
  | [], semaphores, pools => .ok (pools, semaphores)
  | pool :: rest, semaphores, pools => do
    let addresses := poolAddresses pool
    let count := leaseCount bindings pool
    bailIf (count > addresses.length)
      s!"scenario leases {count} accounts from pool '{pool}' per instance, but the pool has only {addresses.length}"
    let offset := poolSeed pool % addresses.length
    let (permits, semaphores) := permitsFor semaphores addresses
    buildLeasePools rest semaphores
      (pools ++ [(pool, { permits, slotsPerInstance := count, offset })])

/-- `slots` are the lease slots that are taken of each pool. -/
def buildRuntimes (leasePools : List (String × LeasePool)) : List (String × BindingDef) →
    (String → ℕ) → Except Report (List (String × BindingRuntime))
  | [], _ => .ok []
  | (name, .bytes32 _) :: rest, slots => do
    return (name, .bytes32) :: (← buildRuntimes leasePools rest slots)
  | (name, .account pool select) :: rest, slots => do
    let addresses := poolAddresses pool
    match select with
    | .index index =>
      bailIf (index ≥ addresses.length)
        s!"account binding '{name}' selects index {index}, but pool '{pool}' has {addresses.length} accounts"
      return (name, .account pool select addresses (leasePools.lookup pool) 0) ::
        (← buildRuntimes leasePools rest slots)
    | .random =>
      return (name, .account pool select addresses (leasePools.lookup pool) 0) ::
        (← buildRuntimes leasePools rest slots)
    | .lease =>
      let slot := slots pool
      return (name, .account pool select addresses (leasePools.lookup pool) slot) ::
        (← buildRuntimes leasePools rest (Function.update slots pool (slot + 1)))

/-- The runtimes of the bindings, and the addresses that have a semaphore. -/
def buildBindingRuntimes : Except Report (List (String × BindingRuntime) × List Address) := do
  let (leasePools, semaphores) ←
    buildLeasePools bindings poolAddresses poolSeed (leasedPools bindings) [] []
  let runtimes ← buildRuntimes poolAddresses leasePools bindings fun _ => 0
  return (runtimes, semaphores)

end Build

/-! ## Binding an instance -/

/-- A leased address and its semaphore. -/
structure LeaseRequest where
  address : Address
  permit : ℕ
deriving DecidableEq

/-- The lease of one binding. -/
def BindingRuntime.leaseRequest (inst : ℕ) : BindingRuntime → Option LeaseRequest
  | .account _ .lease addresses (some pool) slot => do
    let index := pool.index inst slot
    return ⟨← addresses[index]?, ← pool.permits[index]?⟩
  | _ => none

def sameAddress : List LeaseRequest → Bool
  | x :: y :: rest => x.address = y.address || sameAddress (y :: rest)
  | _ => false

/-- The leases of an instance, in the order of their addresses. -/
def leaseRequests (runtimes : List (String × BindingRuntime)) (inst : ℕ) :
    Except Report (List LeaseRequest) := do
  let requests := (runtimes.filterMap fun r => r.2.leaseRequest inst).insertionSort
    fun x y => x.address.toNat ≤ y.address.toNat
  bailIf (sameAddress requests) "two lease bindings selected the same account address"
  return requests

/-! ## Instances -/

/-- Where an instance is; what it holds, oldest first. -/
inductive LeasePhase
  | acquiring (leases todo : List LeaseRequest)
  /-- In the queue of the semaphore of `request`, or given its permit and not woken yet. -/
  | waiting (leases : List LeaseRequest) (request : LeaseRequest) (todo : List LeaseRequest)
  /-- Its steps run. -/
  | running (leases : List LeaseRequest)
  /-- Its permits are being dropped. -/
  | dropping (leases : List LeaseRequest)
  | ended
deriving DecidableEq

/-- `bind_instance`, up to its leases; an instance that cannot be bound ends at once. -/
def LeasePhase.bound (runtimes : List (String × BindingRuntime)) (inst : ℕ) : LeasePhase :=
  match leaseRequests runtimes inst with
  | .ok requests => .acquiring [] requests
  | .error _ => .ended

/-- The semaphores and the instances, the `i`-th being the `i`-th that was started. -/
structure LeaseRun where
  semaphores : ℕ → BinarySemaphore ℕ := fun _ => {}
  instances : List LeasePhase := []

namespace LeaseRun

inductive Label
  | start
  /-- The next step of an instance: it acquires a permit, is woken, finishes its steps or drops a
      permit. -/
  | advance (inst : ℕ)

def goto (s : LeaseRun) (inst : ℕ) (phase : LeasePhase) : LeaseRun :=
  { s with instances := s.instances.set inst phase }

def start (runtimes : List (String × BindingRuntime)) (s : LeaseRun) : LeaseRun :=
  { s with instances := s.instances ++ [.bound runtimes s.instances.length] }

def advance (s : LeaseRun) (inst : ℕ) : LeasePhase → Option LeaseRun
  | .acquiring leases [] => some (s.goto inst (.running leases))
  | .acquiring leases (request :: todo) =>
    match (s.semaphores request.permit).acquire inst with
    | (true, semaphore) => some
      { s.goto inst (.acquiring (leases ++ [request]) todo) with
        semaphores := Function.update s.semaphores request.permit semaphore }
    | (false, semaphore) => some
      { s.goto inst (.waiting leases request todo) with
        semaphores := Function.update s.semaphores request.permit semaphore }
  | .waiting leases request todo =>
    if (s.semaphores request.permit).holder = some inst then
      some (s.goto inst (.acquiring (leases ++ [request]) todo))
    else none
  | .running leases => some (s.goto inst (.dropping leases))
  | .dropping [] => some (s.goto inst .ended)
  | .dropping (lease :: leases) => some
    { s.goto inst (.dropping leases) with
      semaphores := Function.update s.semaphores lease.permit (s.semaphores lease.permit).release }
  | .ended => none

def step (runtimes : List (String × BindingRuntime)) (s : LeaseRun) : Label → Option LeaseRun
  | .start => some (s.start runtimes)
  | .advance inst => s.instances[inst]?.bind (s.advance inst)

end LeaseRun

def leaseSystem (runtimes : List (String × BindingRuntime)) : System LeaseRun LeaseRun.Label where
  init := {}
  step := LeaseRun.step runtimes

end TxGen
