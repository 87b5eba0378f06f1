import BundlePlan.Main
import BundlePlan.Planning.Session
import BundlePlan.Registry.Call
import BundlePlan.Manifest.Reading
import BundlePlan.Proofs.Yaml.RoundTrip
import BundlePlan.Proofs.Manifest.Fence
import BundlePlan.Proofs.Manifest.Cleanup
import BundlePlan.Proofs.Planning.Answers
import BundlePlan.Proofs.Planning.Collision
import BundlePlan.Proofs.Request.Acceptance
import BundlePlan.Proofs.CommandLine.Agreement
import BundlePlan.Proofs.Request.Unset
import BundlePlan.Proofs.Planning.Refusal
import BundlePlan.Proofs.CommandLine.Output
import BundlePlan.Proofs.Planning.Fault
import BundlePlan.Proofs.Manifest.Consistency
import BundlePlan.Proofs.Request.TimeLimit
import BundlePlan.Proofs.Request.Wrapping
import BundlePlan.Proofs.Path
import BundlePlan.Proofs.Labels
import BundlePlan.Proofs.Yaml.Numbers
import BundlePlan.Proofs.Yaml.KeyLength
import BundlePlan.Proofs.Planning.Order
import BundlePlan.Proofs.Request.AskedCommand
import BundlePlan.Proofs.CommandLine.Messages
import BundlePlan.Proofs.Duration.Precision
