import AuthVault.Config
import AuthVault.Http.Router
import AuthVault.Main
import AuthVault.Proofs.Account.Roster
import AuthVault.Proofs.Admin.Withdrawal
import AuthVault.Proofs.Backend.ReadBack
import AuthVault.Proofs.Config.Interval
import AuthVault.Proofs.Config.Options
import AuthVault.Proofs.Credential
import AuthVault.Proofs.Http.Enveloped
import AuthVault.Proofs.Http.Rejection
import AuthVault.Proofs.Object.Scan
import AuthVault.Proofs.Object.Shelf
import AuthVault.Proofs.Service.AdminKeys
import AuthVault.Proofs.Service.Authority
import AuthVault.Proofs.Service.Commuting
import AuthVault.Proofs.Service.Erasure
import AuthVault.Proofs.Service.Integrity
import AuthVault.Proofs.Service.Interruption
import AuthVault.Proofs.Service.Restart
import AuthVault.Proofs.Service.Secrecy
import AuthVault.Proofs.Session.History
import AuthVault.Proofs.Snapshot.Loading
import AuthVault.Proofs.Snapshot.Saving
import AuthVault.Snapshot.Storage
