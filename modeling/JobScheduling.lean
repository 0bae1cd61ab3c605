import JobScheduling.JobAdmission
import JobScheduling.JobChronology
import JobScheduling.JobCommute
import JobScheduling.JobFaults
import JobScheduling.JobIsolation
import JobScheduling.JobLifecycle
import JobScheduling.JobNotifier
import JobScheduling.JobQuiescence
import JobScheduling.JobReads
import JobScheduling.JobRefinement
import JobScheduling.JobReplay
import JobScheduling.JobSerial
import JobScheduling.JobStamps
import JobScheduling.JobWindows
import JobScheduling.JobWinner
import JobScheduling.JobLocking
import JobScheduling.JobApi
import JobScheduling.Histories
import JobScheduling.JobBackend
import JobScheduling.JobNews
import JobScheduling.JobRestarts
import JobScheduling.JobCompletion
import JobScheduling.JobLosses
import JobScheduling.JobWire
